import BaleVpn.Daemon.Config

/-!
# The token store (`config.rs`)

`FileTokenStore` keeps the token in memory and in the config file. `save` and `clear` write the cache under
its lock and then the file under the lock of the file, and hold neither in between, so that the last to write
the one need not be the last to write the other.
-/

namespace BaleVpn.Daemon

open Lib

/-! ## The store -/

/-- `String::into_bytes` -/
def intoBytes (s : String) : List UInt8 := s.toUTF8.data.toList

inductive TokenCall
  | save (bytes : List UInt8)
  | clear
  deriving DecidableEq, Repr

namespace TokenCall

/-- What the call writes to the cache. -/
def cached : TokenCall → Option (List UInt8)
  | .save bytes => some bytes
  | .clear => none

/-- What the call writes to the file. -/
def token : TokenCall → String
  | .save bytes => String.ofList (fromUtf8Lossy bytes)
  | .clear => ""

/-- The update of the file, with what the system does to it. -/
def update (c : TokenCall) (io : Faults) : Update where
  mutate cfg := { cfg with token := c.token }
  io

end TokenCall

/-- What a call does next. -/
inductive TokenPc
  | cache
  | file
  | returned
  deriving DecidableEq, Repr

structure TokenWriter where
  call : TokenCall
  pc : TokenPc := .cache
  deriving DecidableEq, Repr

structure FileTokenStore where
  cache : Option (List UInt8)
  disk : Disk
  calls : List TokenWriter := []
  /-- The calls in the order in which they wrote the cache. -/
  cacheOrder : List TokenCall := []
  /-- The calls in the order in which they wrote the file. -/
  fileOrder : List TokenCall := []
  deriving DecidableEq, Repr

inductive TokenMove
  | call (c : TokenCall)
  | step (i : ℕ) (io : Faults)
  deriving DecidableEq, Repr

namespace FileTokenStore

variable (json : SerdeJson)

/-- The cache that a store begins with. -/
def initial (cfg : Config) : Option (List UInt8) :=
  if cfg.token = "" then none else some (intoBytes cfg.token)

/-- `FileTokenStore::new` -/
def new (d : Disk) (io : Faults) : FileTokenStore where
  cache := initial (ConfigFile.loaded json d io)
  disk := d

def step (s : FileTokenStore) : TokenMove → FileTokenStore
  | .call c => { s with calls := s.calls ++ [{ call := c }] }
  | .step i io =>
    match s.calls[i]? with
    | none => s
    | some ⟨c, .cache⟩ =>
      { s with
        cache := c.cached
        calls := s.calls.set i ⟨c, .file⟩
        cacheOrder := s.cacheOrder ++ [c] }
    | some ⟨c, .file⟩ =>
      { s with
        disk := ConfigFile.step json s.disk (c.update io)
        calls := s.calls.set i ⟨c, .returned⟩
        fileOrder := s.fileOrder ++ [c] }
    | some ⟨_, .returned⟩ => s

def run (s : FileTokenStore) (ms : List TokenMove) : FileTokenStore := ms.foldl (step json) s

/-! ## The property -/

/-- A store made of the file now begins with what the cache holds. -/
def SurvivesRestart (s : FileTokenStore) : Prop := s.cache = (new json s.disk {}).cache

/-- The move is no update of the file, or one that succeeds; assumed of `serde_json` is that what it writes
is read back. -/
def Succeeds (s : FileTokenStore) : TokenMove → Prop
  | .call _ => True
  | .step i io => ∀ w ∈ s.calls[i]?, w.pc = .file →
    (ConfigFile.update json s.disk (w.call.update io)).1.isOk = true ∧
      ConfigFile.WritesRoundTrip json s.disk (w.call.update io)

def AllReturned (s : FileTokenStore) : Prop := ∀ w ∈ s.calls, w.pc = .returned

instance (s : FileTokenStore) : Decidable s.AllReturned := inferInstanceAs (Decidable (∀ w ∈ _, _))

end FileTokenStore

/-- The first call leaves in the cache what the second one leaves in the file. -/
def TokenCall.Matches : TokenCall → TokenCall → Prop
  | .clear, .clear => True
  | .clear, .save bytes => bytes = []
  | .save _, .clear => False
  | .save bytes, .save bytes' => bytes' ≠ [] ∧ intoBytes (String.ofList (fromUtf8Lossy bytes')) = bytes

instance : (c c' : TokenCall) → Decidable (c.Matches c')
  | .clear, .clear => isTrue trivial
  | .clear, .save _ => inferInstanceAs (Decidable (_ = _))
  | .save _, .clear => isFalse id
  | .save _, .save _ => inferInstanceAs (Decidable (_ ∧ _))

namespace FileTokenStore

/-- The last call to write the cache matches the last to write the file. -/
def LastWritesMatch (s : FileTokenStore) : Prop :=
  ∃ c ∈ s.cacheOrder.getLast?, ∃ c' ∈ s.fileOrder.getLast?, c.Matches c'

end FileTokenStore

/-! ## What two calls leave -/

theorem intoBytes_eq_nil {s : String} : intoBytes s = [] ↔ s = "" := by
  constructor
  · intro h
    have hchars := fromUtf8Lossy_toUTF8 s
    rw [← intoBytes, h] at hchars
    exact String.toList_eq_nil_iff.mp hchars.symm
  · rintro rfl
    rfl

namespace TokenCall

theorem token_save_eq_empty {bytes : List UInt8} : (save bytes).token = "" ↔ bytes = [] := by
  rw [token, ← String.toList_eq_nil_iff, String.toList_ofList, fromUtf8Lossy_eq_nil]

/-- A store that is made of the file of the second call has the cache of the first just when they match. -/
theorem matches_iff (c c' : TokenCall) {cfg : Config} (h : cfg.token = c'.token) :
    c.cached = FileTokenStore.initial cfg ↔ c.Matches c' := by
  rw [FileTokenStore.initial, h]
  rcases c with bytes | _
  · rcases c' with bytes' | _
    · by_cases hempty : bytes' = []
      · rw [if_pos (token_save_eq_empty.mpr hempty)]
        exact iff_of_false nofun fun hmatches => hmatches.1 hempty
      · rw [if_neg (mt token_save_eq_empty.mp hempty), cached, Option.some.injEq, eq_comm]
        exact (and_iff_right hempty).symm
    · exact iff_of_false nofun id
  · rcases c' with bytes' | _
    · by_cases hempty : bytes' = []
      · rw [if_pos (token_save_eq_empty.mpr hempty)]
        exact iff_of_true rfl hempty
      · rw [if_neg (mt token_save_eq_empty.mp hempty)]
        exact iff_of_false nofun hempty
    · exact iff_of_true rfl trivial

theorem matches_iff_eq {t t' : String} (h : t' ≠ "") :
    (save (intoBytes t)).Matches (save (intoBytes t')) ↔ t = t' := by
  have htext : ∀ t : String, String.ofList (fromUtf8Lossy (intoBytes t)) = t := by
    intro t
    rw [intoBytes, fromUtf8Lossy_toUTF8, String.ofList_toList]
  rw [Matches, htext, and_iff_right (mt intoBytes_eq_nil.mp h)]
  constructor
  · intro hbytes
    rw [← htext t, ← htext t', hbytes]
  · rintro rfl
    rfl

end TokenCall

/-! ## Runs -/

namespace FileTokenStore

variable {json : SerdeJson} {s : FileTokenStore} {m : TokenMove}

/-- Cache and file are what the last calls wrote. -/
structure Tracks (json : SerdeJson) (s : FileTokenStore) : Prop where
  cache : ∀ c ∈ s.cacheOrder.getLast?, s.cache = c.cached
  file : ∀ c ∈ s.fileOrder.getLast?, (ConfigFile.loaded json s.disk {}).token = c.token
  cacheWritten : ∀ w ∈ s.calls, w.pc ≠ .cache → s.cacheOrder ≠ []
  fileWritten : ∀ w ∈ s.calls, w.pc = .returned → s.fileOrder ≠ []

theorem Tracks.new (json : SerdeJson) (d : Disk) (io : Faults) : Tracks json (new json d io) :=
  ⟨nofun, nofun, nofun, nofun⟩

theorem loaded_of_update {d : Disk} {c : TokenCall} {io : Faults}
    (hok : (ConfigFile.update json d (c.update io)).1.isOk = true)
    (hround : ConfigFile.WritesRoundTrip json d (c.update io)) :
    (ConfigFile.loaded json (ConfigFile.step json d (c.update io)) {}).token = c.token := by
  obtain ⟨text, hprint, hblank, hparse⟩ := hround
  have hsaved : ¬ (c.update io).io.Saving := by
    intro hfails
    obtain ⟨e, hupdate⟩ := @ConfigFile.update_of_saving json d _ hfails
    rw [hupdate] at hok
    cases hok
  rw [ConfigFile.step, ConfigFile.update_of_printed hsaved hprint, ConfigFile.loaded_text hblank, hparse]
  rfl

theorem Tracks.step (h : Tracks json s) (hm : Succeeds json s m) : Tracks json (s.step json m) := by
  rcases m with c | ⟨i, io⟩
  · have hnew : ∀ w ∈ s.calls ++ [{ call := c }], w ∈ s.calls ∨ w.pc = .cache := by
      intro w hw
      rcases List.mem_append.mp hw with hw | hw
      · exact .inl hw
      · rw [List.mem_singleton.mp hw]
        exact .inr rfl
    refine ⟨h.cache, h.file, ?_, ?_⟩
    · intro w hw hpc
      exact h.cacheWritten w ((hnew w hw).resolve_right hpc) hpc
    · intro w hw hpc
      refine h.fileWritten w ((hnew w hw).resolve_right ?_) hpc
      rw [hpc]
      nofun
  · cases hi : s.calls[i]? with
    | none =>
      rw [FileTokenStore.step, hi]
      exact h
    | some w =>
      have hw : w ∈ s.calls := List.mem_of_getElem? hi
      obtain ⟨c, pc⟩ := w
      rcases pc with _ | _ | _
      · rw [FileTokenStore.step, hi]
        refine ⟨?_, h.file, ?_, ?_⟩
        · intro c' hc'
          rw [List.getLast?_concat] at hc'
          rw [← Option.some.inj hc']
        · intro w _ _
          exact List.append_ne_nil_of_right_ne_nil _ (List.cons_ne_nil c [])
        · intro w hw' hpc
          rcases List.mem_or_eq_of_mem_set hw' with hw' | rfl
          · exact h.fileWritten w hw' hpc
          · cases hpc
      · obtain ⟨hok, hround⟩ := hm ⟨c, .file⟩ hi rfl
        rw [FileTokenStore.step, hi]
        refine ⟨h.cache, ?_, ?_, ?_⟩
        · intro c' hc'
          rw [List.getLast?_concat] at hc'
          rw [← Option.some.inj hc']
          exact loaded_of_update hok hround
        · intro w hw' hpc
          rcases List.mem_or_eq_of_mem_set hw' with hw' | rfl
          · exact h.cacheWritten w hw' hpc
          · exact h.cacheWritten ⟨c, .file⟩ hw nofun
        · intro w _ _
          exact List.append_ne_nil_of_right_ne_nil _ (List.cons_ne_nil c [])
      · rw [FileTokenStore.step, hi]
        exact h

/-- Once all calls have returned, cache and file agree just when the calls match that wrote each of them
last. -/
theorem survivesRestart_iff {d : Disk} {io : Faults} {ms : List TokenMove}
    (hms : Along (step json) (Succeeds json) (new json d io) ms)
    (hcalls : (run json (new json d io) ms).calls ≠ [])
    (hreturned : (run json (new json d io) ms).AllReturned) :
    (run json (new json d io) ms).SurvivesRestart json ↔ (run json (new json d io) ms).LastWritesMatch := by
  have h : Tracks json (run json (new json d io) ms) :=
    Along.invariant (fun _ _ hm h => h.step hm) (Tracks.new json d io) hms
  generalize run json (new json d io) ms = s at hcalls hreturned h ⊢
  obtain ⟨w, hw⟩ := List.exists_mem_of_ne_nil _ hcalls
  have hpc := hreturned w hw
  have hcache : s.cacheOrder ≠ [] := by
    apply h.cacheWritten w hw
    rw [hpc]
    nofun
  have hfile : s.fileOrder ≠ [] := h.fileWritten w hw hpc
  have hlast := List.getLast?_eq_some_getLast hcache
  have hlast' := List.getLast?_eq_some_getLast hfile
  rw [SurvivesRestart, LastWritesMatch, hlast, hlast', h.cache _ hlast, new]
  simp only [Option.mem_some_iff, exists_eq_left']
  exact TokenCall.matches_iff _ _ (h.file _ hlast')

/-! ## A token and its removal -/

/-- The update of a call succeeds, and what it writes is read back. -/
def UpdateSucceeds (json : SerdeJson) (d : Disk) (c : TokenCall) : Prop :=
  (ConfigFile.update json d (c.update {})).1.isOk = true ∧ ConfigFile.WritesRoundTrip json d (c.update {})

/-- A call on its own. -/
def alone (c : TokenCall) : List TokenMove := [.call c, .step 0 {}, .step 0 {}]

/-- A save writes the cache first and the file last, and a `clear` does both in between. -/
def race (c : TokenCall) : List TokenMove :=
  [.call c, .call .clear, .step 0 {}, .step 1 {}, .step 1 {}, .step 0 {}]

theorem succeeds_cache {i : ℕ} {io : Faults} {c : TokenCall} (h : s.calls[i]? = some ⟨c, .cache⟩) :
    Succeeds json s (.step i io) := by
  intro w hw hpc
  rw [h] at hw
  obtain rfl := Option.some.inj hw
  cases hpc

theorem succeeds_file {i : ℕ} {c : TokenCall} (h : s.calls[i]? = some ⟨c, .file⟩)
    (hupdate : UpdateSucceeds json s.disk c) : Succeeds json s (.step i {}) := by
  intro w hw _
  rw [h] at hw
  obtain rfl := Option.some.inj hw
  exact hupdate

theorem alone_succeeds {d : Disk} {c : TokenCall} (h : UpdateSucceeds json d c) :
    Along (FileTokenStore.step json) (Succeeds json) (new json d {}) (alone c) :=
  ⟨trivial, succeeds_cache rfl, succeeds_file rfl h, trivial⟩

theorem race_succeeds {d : Disk} {c : TokenCall} (hclear : UpdateSucceeds json d .clear)
    (hsave : UpdateSucceeds json (ConfigFile.step json d (TokenCall.clear.update {})) c) :
    Along (FileTokenStore.step json) (Succeeds json) (new json d {}) (race c) :=
  ⟨trivial, trivial, succeeds_cache rfl, succeeds_cache rfl, succeeds_file rfl hclear, succeeds_file rfl hsave,
    trivial⟩

theorem run_race (d : Disk) (c : TokenCall) : run json (new json d {}) (race c) =
    { cache := none
      disk := ConfigFile.step json (ConfigFile.step json d (TokenCall.clear.update {})) (c.update {})
      calls := [⟨c, .returned⟩, ⟨.clear, .returned⟩]
      cacheOrder := [c, .clear]
      fileOrder := [.clear, c] } := rfl

open ConfigFile (signedIn signedInText prettyText update_object)

def cleared : Config := { signedIn with token := "" }

def clearedText : String := prettyText "" "5" "null" "3001" "1080"

/-- `serde_json` on the config with and without the token. -/
def tokenJson : SerdeJson where
  fromStr t :=
    if t = signedInText then .ok signedIn.keys
    else if t = clearedText then .ok cleared.keys
    else .error "not parsed"
  toStringPretty k :=
    if k = signedIn.keys then .ok signedInText
    else if k = cleared.keys then .ok clearedText
    else .error "not printed"

/-- Saves the token of `signedIn`. -/
def saveAbc : TokenCall := .save [97, 98, 99]

theorem parse_signedIn : tokenJson.fromStr signedInText = .ok signedIn.keys := by decide +kernel

theorem parse_cleared : tokenJson.fromStr clearedText = .ok cleared.keys := by decide +kernel

theorem clear_signedIn :
    ConfigFile.WritesRoundTrip tokenJson ⟨some (.text signedInText)⟩ (TokenCall.clear.update {}) ∧
    ConfigFile.update tokenJson ⟨some (.text signedInText)⟩ (TokenCall.clear.update {}) =
      (.ok cleared, ⟨some (.text clearedText)⟩) :=
  update_object rfl (by rw [← prettyText, ← signedInText, parse_signedIn]; rfl) (by decide +kernel) parse_cleared

theorem save_cleared :
    ConfigFile.WritesRoundTrip tokenJson ⟨some (.text clearedText)⟩ (saveAbc.update {}) ∧
    ConfigFile.update tokenJson ⟨some (.text clearedText)⟩ (saveAbc.update {}) =
      (.ok signedIn, ⟨some (.text signedInText)⟩) :=
  update_object rfl (by rw [← prettyText, ← clearedText, parse_cleared]; decide +kernel) (by decide +kernel)
    parse_signedIn

theorem clear_succeeds : UpdateSucceeds tokenJson ⟨some (.text signedInText)⟩ .clear :=
  ⟨by rw [clear_signedIn.2]; rfl, clear_signedIn.1⟩

/-- The file agrees with the cache after a `clear` on its own. -/
theorem survivesRestart_clear :
    (run tokenJson (new tokenJson ⟨some (.text signedInText)⟩ {}) (alone .clear)).SurvivesRestart tokenJson :=
  (survivesRestart_iff (alone_succeeds clear_succeeds) nofun (by decide)).mpr ⟨.clear, rfl, .clear, rfl, trivial⟩

/-- The token is cleared from the cache, and is in the file. -/
theorem race_diverges :
    ((run tokenJson (new tokenJson ⟨some (.text signedInText)⟩ {}) (race saveAbc)).cache = none ∧
      (run tokenJson (new tokenJson ⟨some (.text signedInText)⟩ {}) (race saveAbc)).disk =
        ⟨some (.text signedInText)⟩) ∧
    ¬ ∀ (json : SerdeJson) (d : Disk) (io : Faults) (ms : List TokenMove),
      Along (FileTokenStore.step json) (Succeeds json) (new json d io) ms →
      (run json (new json d io) ms).calls ≠ [] → (run json (new json d io) ms).AllReturned →
      (run json (new json d io) ms).SurvivesRestart json := by
  have hclear : ConfigFile.step tokenJson ⟨some (.text signedInText)⟩ (TokenCall.clear.update {}) =
      ⟨some (.text clearedText)⟩ := by
    rw [ConfigFile.step, clear_signedIn.2]
  have hsave : ConfigFile.step tokenJson ⟨some (.text clearedText)⟩ (saveAbc.update {}) =
      ⟨some (.text signedInText)⟩ := by
    rw [ConfigFile.step, save_cleared.2]
  have hsucceeds : UpdateSucceeds tokenJson ⟨some (.text clearedText)⟩ saveAbc :=
    ⟨by rw [save_cleared.2]; rfl, save_cleared.1⟩
  rw [run_race, hclear, hsave]
  refine ⟨⟨rfl, rfl⟩, fun h => ?_⟩
  have hms := race_succeeds clear_succeeds (c := saveAbc) (by rw [hclear]; exact hsucceeds)
  have hcalls : (run tokenJson (new tokenJson ⟨some (.text signedInText)⟩ {}) (race saveAbc)).calls ≠ [] := by
    rw [run_race]
    exact List.cons_ne_nil _ _
  have hagree := h tokenJson ⟨some (.text signedInText)⟩ {} (race saveAbc) hms hcalls (by
    rw [run_race]
    decide)
  have hloaded : ConfigFile.loaded tokenJson ⟨some (.text signedInText)⟩ {} = signedIn := by
    rw [ConfigFile.loaded_text (t := signedInText) (ConfigFile.isBlank_brace _), parse_signedIn]
    rfl
  rw [run_race, hclear, hsave, SurvivesRestart, new, initial, hloaded, if_neg (by decide)] at hagree
  cases hagree

end FileTokenStore

end BaleVpn.Daemon
