import BaleVpn.Lib.Machine
import BaleVpn.Lib.Text

/-!
# The config file (`config.rs`)

`ConfigFile::update` loads the config, applies the mutation and saves the result by a rename; the write lock
lets one update run at a time. `serde_json` is a parameter. What a failed save leaves in the `.tmp` sibling
is read by nobody.
-/

namespace BaleVpn.Daemon

open Lib

/-! ## The config -/

structure Config where
  token : String := ""
  admission : List String := []
  blacklist : List String := []
  maxClients : UInt32 := 0
  mode : Option String := none
  natMode : Option String := none
  port : UInt16 := 0
  peerId : Option String := none
  socks5Port : UInt16 := 0
  deriving DecidableEq, Repr

/-- `Config::default`, which is derived. -/
def Config.default : Config := {}

/-- The keys of a JSON object that `Config` has a field for, where it has them. -/
structure Keys where
  token : Option String := none
  admission : Option (List String) := none
  blacklist : Option (List String) := none
  maxClients : Option UInt32 := none
  mode : Option (Option String) := none
  natMode : Option (Option String) := none
  port : Option UInt16 := none
  peerId : Option (Option String) := none
  socks5Port : Option UInt16 := none
  deriving DecidableEq, Repr

def defaultPort : UInt16 := 3001
def defaultSocks5Port : UInt16 := 1080
def defaultMaxClients : UInt32 := 5

/-- The derived `Deserialize`, with the default that each field names. -/
def Config.ofKeys (k : Keys) : Config where
  token := k.token.getD ""
  admission := k.admission.getD []
  blacklist := k.blacklist.getD []
  maxClients := k.maxClients.getD defaultMaxClients
  mode := k.mode.getD none
  natMode := k.natMode.getD none
  port := k.port.getD defaultPort
  peerId := k.peerId.getD none
  socks5Port := k.socks5Port.getD defaultSocks5Port

/-- The derived `Serialize`. -/
def Config.keys (c : Config) : Keys where
  token := some c.token
  admission := some c.admission
  blacklist := some c.blacklist
  maxClients := some c.maxClients
  mode := some c.mode
  natMode := some c.natMode
  port := some c.port
  peerId := some c.peerId
  socks5Port := some c.socks5Port

theorem Config.ofKeys_keys (c : Config) : ofKeys c.keys = c := rfl

/-- `serde_json`, between texts and objects. -/
structure SerdeJson where
  fromStr : String → Except String Keys
  toStringPretty : Keys → Except String String

/-- `text.trim().is_empty()` -/
def isBlank (text : String) : Bool := (trim text.toList).isEmpty

/-- What is written for the config is read as the config. -/
def SerdeJson.RoundTrips (json : SerdeJson) (c : Config) : Prop :=
  ∃ text, json.toStringPretty c.keys = .ok text ∧ isBlank text = false ∧ json.fromStr text = .ok c.keys

/-! ## The file -/

inductive Content
  | text (t : String)
  /-- Not UTF-8. -/
  | binary
  deriving DecidableEq, Repr

/-- The file, if there is one. -/
structure Disk where
  file : Option Content := none
  deriving DecidableEq, Repr

inductive IoError
  | invalidData (message : String)
  | os
  deriving DecidableEq, Repr

/-- Which of the calls of an update the system fails. `exists` of a file that cannot be looked up is
`false`. -/
structure Faults where
  lookup : Bool := false
  read : Bool := false
  write : Bool := false
  setPermissions : Bool := false
  rename : Bool := false
  deriving DecidableEq, Repr

/-- One of the calls of a save fails. -/
def Faults.Saving (io : Faults) : Prop := io.write ∨ io.setPermissions ∨ io.rename

instance (io : Faults) : Decidable io.Saving := inferInstanceAs (Decidable (_ ∨ _))

variable (json : SerdeJson)

/-- `Config::load` -/
def Config.load (d : Disk) (io : Faults) : Except IoError Config :=
  match d.file with
  | none => .ok default
  | some content =>
    if io.lookup then .ok default
    else if io.read then .error .os
    else
      match content with
      | .binary => .error (.invalidData "stream did not contain valid UTF-8")
      | .text t =>
        if isBlank t then .ok default
        else
          match json.fromStr t with
          | .ok k => .ok (ofKeys k)
          | .error e => .error (.invalidData e)

/-- `Config::save` -/
def Config.save (c : Config) (d : Disk) (io : Faults) : Except IoError Unit × Disk :=
  match json.toStringPretty c.keys with
  | .error e => (.error (.invalidData e), d)
  | .ok text => if io.Saving then (.error .os, d) else (.ok (), ⟨some (.text text)⟩)

/-- A call of `update`, with what the system does to it. -/
structure Update where
  mutate : Config → Config
  io : Faults := {}

namespace ConfigFile

/-- `Config::load(..).unwrap_or_default()` -/
def loaded (d : Disk) (io : Faults) : Config := (Config.load json d io).toOption.getD Config.default

def update (d : Disk) (u : Update) : Except IoError Config × Disk :=
  let cfg := u.mutate (loaded json d u.io)
  match cfg.save json d u.io with
  | (.ok _, d) => (.ok cfg, d)
  | (.error e, d) => (.error e, d)

/-- The updates that the write lock puts in order. -/
def step (d : Disk) (u : Update) : Disk := (update json d u).2

/-! ## The property -/

/-- The config that a file has; none where it cannot be parsed. An absent or empty file is the object
without keys. -/
def configOf : Option Content → Option Config
  | none => some (Config.ofKeys {})
  | some (.text t) =>
    if isBlank t then some (Config.ofKeys {}) else (json.fromStr t).toOption.map Config.ofKeys
  | some .binary => none

/-- The config that is stored, as far as it can be read. -/
def stored (d : Disk) (io : Faults) : Option Config :=
  if d.file.isSome ∧ (io.lookup ∨ io.read) then none else configOf json d.file

/-- The update stores the mutation of the stored config, and nothing else; it fails if there is none, and
what fails leaves the file. -/
def LosesNothing (d : Disk) (u : Update) : Prop :=
  match update json d u with
  | (.ok c, d') => (stored json d u.io).map u.mutate = some c ∧ configOf json d'.file = some c
  | (.error _, d') => d' = d

/-- The file has a config that can be read and parsed; or it is absent or empty, and the mutation makes the
same of the two defaults. -/
def Sound (d : Disk) (u : Update) : Prop :=
  match d.file with
  | none => u.mutate Config.default = u.mutate (Config.ofKeys {})
  | some .binary => False
  | some (.text t) =>
    (u.io.lookup = false ∧ u.io.read = false) ∧
      if isBlank t then u.mutate Config.default = u.mutate (Config.ofKeys {}) else (json.fromStr t).isOk

/-- Assumed of `serde_json`: what the update writes is read back. -/
def WritesRoundTrip (d : Disk) (u : Update) : Prop := json.RoundTrips (u.mutate (loaded json d u.io))

/-! ## One update -/

variable {json} {d : Disk} {u : Update}

theorem update_of_saving (h : u.io.Saving) : ∃ e, update json d u = (.error e, d) := by
  unfold update Config.save
  rcases hprint : json.toStringPretty (u.mutate (loaded json d u.io)).keys with e | text
  · refine ⟨.invalidData e, ?_⟩
    simp only [hprint]
  · refine ⟨.os, ?_⟩
    simp only [hprint, if_pos h]

theorem update_of_printed {text : String} (h : ¬ u.io.Saving)
    (hprint : json.toStringPretty (u.mutate (loaded json d u.io)).keys = .ok text) :
    update json d u = (.ok (u.mutate (loaded json d u.io)), ⟨some (.text text)⟩) := by
  unfold update Config.save
  simp only [hprint, if_neg h]

theorem update_of_saved (h : ¬ u.io.Saving) (hround : WritesRoundTrip json d u) :
    ∃ d', update json d u = (.ok (u.mutate (loaded json d u.io)), d') ∧
      configOf json d'.file = some (u.mutate (loaded json d u.io)) := by
  obtain ⟨text, hprint, hblank, hparse⟩ := hround
  refine ⟨⟨some (.text text)⟩, update_of_printed h hprint, ?_⟩
  · rw [configOf, hblank, hparse]
    rfl

/-- What is loaded is what is stored, but for the defaults, just when the file is sound. -/
theorem stored_map_iff : (stored json d u.io).map u.mutate = some (u.mutate (loaded json d u.io)) ↔
    Sound json d u := by
  obtain ⟨file⟩ := d
  rcases file with - | content
  · have hloaded : loaded json ⟨none⟩ u.io = Config.default := rfl
    have hstored : stored json ⟨none⟩ u.io = some (Config.ofKeys {}) := by
      simp [stored, configOf]
    rw [hloaded, hstored, Option.map_some, Option.some.injEq]
    exact eq_comm
  by_cases hio : u.io.lookup = true ∨ u.io.read = true
  · have hstored : stored json ⟨some content⟩ u.io = none := by
      rw [stored, if_pos ⟨rfl, hio⟩]
    rw [hstored]
    refine iff_of_false nofun fun hsound => ?_
    rcases content with t | -
    · obtain ⟨⟨hlookup, hread⟩, -⟩ := hsound
      simp [hlookup, hread] at hio
    · exact hsound
  obtain ⟨hlookup, hread⟩ := not_or.mp hio
  have hstored : stored json ⟨some content⟩ u.io = configOf json (some content) := by
    rw [stored, if_neg fun h => hio h.2]
  rw [hstored]
  rcases content with t | -
  · have hable : u.io.lookup = false ∧ u.io.read = false :=
      ⟨Bool.of_not_eq_true hlookup, Bool.of_not_eq_true hread⟩
    simp only [Sound, hable, and_self, true_and, configOf, loaded, Config.load, Bool.false_eq_true, if_false]
    by_cases hblank : isBlank t = true
    · simp only [hblank, if_true, Option.map_some, Option.some.injEq]
      exact eq_comm
    · simp only [hblank, Bool.false_eq_true, if_false]
      rcases json.fromStr t with e | k
      · simp [Except.toOption, Except.isOk, Except.toBool]
      · simp [Except.toOption, Except.isOk, Except.toBool]
  · exact iff_of_false nofun id

theorem loaded_text {t : String} (hblank : isBlank t = false) :
    loaded json ⟨some (.text t)⟩ {} = ((json.fromStr t).toOption.map Config.ofKeys).getD Config.default := by
  unfold loaded Config.load
  simp only [hblank, Bool.false_eq_true, if_false]
  rcases json.fromStr t with e | k <;> rfl

theorem sound_text {t : String} {k : Keys} (hio : u.io.lookup = false ∧ u.io.read = false)
    (hblank : isBlank t = false) (hparse : json.fromStr t = .ok k) : Sound json ⟨some (.text t)⟩ u := by
  refine ⟨hio, ?_⟩
  rw [hblank, hparse]
  rfl

theorem losesNothing_iff (hround : WritesRoundTrip json d u) :
    LosesNothing json d u ↔ u.io.Saving ∨ Sound json d u := by
  by_cases hfails : u.io.Saving
  · obtain ⟨e, hupdate⟩ := @update_of_saving json d u hfails
    rw [LosesNothing, hupdate]
    exact iff_of_true rfl (.inl hfails)
  · obtain ⟨d', hupdate, hafter⟩ := update_of_saved hfails hround
    rw [LosesNothing, hupdate, or_iff_right hfails, ← stored_map_iff]
    exact and_iff_left hafter

/-! ## Runs -/

/-- Any number of updates one behind the other lose nothing just when each of them fails to save or finds a
sound file. -/
theorem updates_lose_nothing {us : List Update} (hround : Along (step json) (WritesRoundTrip json) d us) :
    Along (step json) (LosesNothing json) d us ↔
      Along (step json) (fun d u => u.io.Saving ∨ Sound json d u) d us :=
  Along.iff_of (fun _ _ => losesNothing_iff) hround

theorem stored_after {us : List Update} (h : Along (step json) (LosesNothing json) d us) {c : Config}
    (hc : configOf json d.file = some c) : ∃ applied : List Update, applied.Sublist us ∧
      configOf json (us.foldl (step json) d).file = some (applied.foldl (fun c u => u.mutate c) c) := by
  induction us generalizing d c with
  | nil => exact ⟨[], List.Sublist.slnil, hc⟩
  | cons u us ih =>
    obtain ⟨hu, hus⟩ := h
    unfold LosesNothing at hu
    rw [List.foldl_cons]
    split at hu
    · rename_i c' d' hupdate
      have hstep : step json d u = d' := by rw [step, hupdate]
      have hmutate : u.mutate c = c' := by
        obtain ⟨hstored, -⟩ := hu
        unfold stored at hstored
        split at hstored
        · cases hstored
        · rw [hc] at hstored
          exact Option.some.inj hstored
      rw [hstep] at hus ⊢
      obtain ⟨applied, hsub, hafter⟩ := ih hus hu.2
      exact ⟨u :: applied, hsub.cons_cons u, by rw [List.foldl_cons, hmutate, hafter]⟩
    · rename_i e d' hupdate
      have hstep : step json d u = d := by rw [step, hupdate, hu]
      rw [hstep] at hus ⊢
      obtain ⟨applied, hsub, hafter⟩ := ih hus hc
      exact ⟨applied, hsub.cons u, hafter⟩

/-! ## A torn file -/

theorem isBlank_brace (text : String) : isBlank ("\x7b" ++ text) = false := by
  rw [isBlank, String.toList_append]
  exact Bool.of_not_eq_true (mt List.isEmpty_iff.mp (trim_ne_nil (by decide)))

/-- The text of a config with empty lists and neither a NAT mode nor a peer. -/
def prettyText (token maxClients mode port socks5Port : String) : String :=
  "\x7b" ++ ("\n  \"token\": \"" ++ token ++ "\",\n  \"admission\": [],\n  \"blacklist\": [],\n  \"maxClients\": " ++
    maxClients ++ ",\n  \"mode\": " ++ mode ++ ",\n  \"nat_mode\": null,\n  \"port\": " ++ port ++
    ",\n  \"peerId\": null,\n  \"socks5Port\": " ++ socks5Port ++ "\n\x7d")

def signedIn : Config := Config.ofKeys { token := some "abc" }

def signedInText : String := prettyText "abc" "5" "null" "3001" "1080"

def serving : Config := { signedIn with mode := some "server" }

def servingText : String := prettyText "abc" "5" "\"server\"" "3001" "1080"

/-- The derived default with a mode. -/
def signedOut : Config := { mode := some "server" }

def signedOutText : String := prettyText "" "0" "\"server\"" "0" "0"

/-- `serde_json` on these three, and on nothing else. -/
def serdeJson : SerdeJson where
  fromStr t :=
    if t = signedInText then .ok signedIn.keys
    else if t = servingText then .ok serving.keys
    else if t = signedOutText then .ok signedOut.keys
    else .error "EOF while parsing an object at line 1 column 15"
  toStringPretty k :=
    if k = signedIn.keys then .ok signedInText
    else if k = serving.keys then .ok servingText
    else if k = signedOut.keys then .ok signedOutText
    else .error "not printed"

/-- The user picks the server mode. -/
def pickServer : Update := { mutate := fun c => { c with mode := some "server" } }

theorem update_object {before after : String} {c : Config} (hio : u.io = {})
    (hmutate : u.mutate (((json.fromStr ("\x7b" ++ before)).toOption.map Config.ofKeys).getD Config.default) = c)
    (hprint : json.toStringPretty c.keys = .ok ("\x7b" ++ after))
    (hparse : json.fromStr ("\x7b" ++ after) = .ok c.keys) :
    WritesRoundTrip json ⟨some (.text ("\x7b" ++ before))⟩ u ∧
      update json ⟨some (.text ("\x7b" ++ before))⟩ u = (.ok c, ⟨some (.text ("\x7b" ++ after))⟩) := by
  have hloaded : u.mutate (loaded json ⟨some (.text ("\x7b" ++ before))⟩ u.io) = c := by
    rw [hio, loaded_text (isBlank_brace before), hmutate]
  have hsaved : ¬ u.io.Saving := by
    rw [hio]
    decide
  subst hloaded
  exact ⟨⟨_, hprint, isBlank_brace after, hparse⟩, update_of_printed hsaved hprint⟩

theorem updates_lose_nothing_serving :
    Along (step serdeJson) (LosesNothing serdeJson) ⟨some (.text signedInText)⟩ [pickServer, pickServer] := by
  have hsignedIn : serdeJson.fromStr signedInText = .ok signedIn.keys := by decide +kernel
  have hserving : serdeJson.fromStr servingText = .ok serving.keys := by decide +kernel
  have hprint : serdeJson.toStringPretty serving.keys = .ok servingText := by decide +kernel
  obtain ⟨hround, hupdate⟩ : WritesRoundTrip serdeJson ⟨some (.text signedInText)⟩ pickServer ∧
      update serdeJson ⟨some (.text signedInText)⟩ pickServer = (.ok serving, ⟨some (.text servingText)⟩) :=
    update_object rfl (by rw [← prettyText, ← signedInText, hsignedIn]; rfl) hprint hserving
  have hround' : WritesRoundTrip serdeJson ⟨some (.text servingText)⟩ pickServer :=
    (update_object rfl (by rw [← prettyText, ← servingText, hserving]; rfl) hprint hserving).1
  have hstep : step serdeJson ⟨some (.text signedInText)⟩ pickServer = ⟨some (.text servingText)⟩ := by
    rw [step, hupdate]
  have hboth : Along (step serdeJson) (WritesRoundTrip serdeJson) ⟨some (.text signedInText)⟩
      [pickServer, pickServer] := by
    refine ⟨hround, ?_, trivial⟩
    rw [hstep]
    exact hround'
  refine (updates_lose_nothing hboth).mpr ⟨.inr ?_, .inr ?_, trivial⟩
  · exact sound_text ⟨rfl, rfl⟩ (isBlank_brace _) hsignedIn
  · rw [hstep]
    exact sound_text ⟨rfl, rfl⟩ (isBlank_brace _) hserving

/-- The text breaks off behind the token. -/
def tornText : String := "\x7b" ++ "\"token\": \"abc\""

/-- The token is replaced by the default. -/
theorem update_loses_token :
    update serdeJson ⟨some (.text tornText)⟩ pickServer = (.ok signedOut, ⟨some (.text signedOutText)⟩) ∧
    ¬ ∀ (json : SerdeJson) (d : Disk) (us : List Update), Along (step json) (WritesRoundTrip json) d us →
      Along (step json) (LosesNothing json) d us := by
  have htorn : serdeJson.fromStr tornText = .error "EOF while parsing an object at line 1 column 15" := by
    decide +kernel
  obtain ⟨hround, hupdate⟩ : WritesRoundTrip serdeJson ⟨some (.text tornText)⟩ pickServer ∧
      update serdeJson ⟨some (.text tornText)⟩ pickServer = (.ok signedOut, ⟨some (.text signedOutText)⟩) :=
    update_object rfl (by decide +kernel) (by decide +kernel) (by decide +kernel)
  refine ⟨hupdate, fun h => ?_⟩
  have hkept := (h serdeJson ⟨some (.text tornText)⟩ [pickServer] ⟨hround, trivial⟩).1
  have hnone : configOf serdeJson (some (.text tornText)) = none := by
    rw [configOf, htorn, tornText, isBlank_brace]
    rfl
  unfold LosesNothing stored at hkept
  rw [hupdate, if_neg (by decide), hnone] at hkept
  simp at hkept

end ConfigFile

end BaleVpn.Daemon
