import BaleVpn.Lib.Text
import BaleVpn.Lib.Utf8
import BaleVpn.Signaling.Base64

/-!
# The user id of a token (`ws.rs`)

`decode_jwt_user_id` takes the second part of a token, decodes it, and plucks the number behind the first
`"user_id"` out of the text. The JSON around it is not parsed.
-/

namespace BaleVpn.Signaling

open Lib Net

/-- `&json[json.find(key)? + key.len()..]` -/
def afterFirst (key : List Char) : List Char → Option (List Char)
  | [] => stripPrefix key []
  | c :: cs =>
    match stripPrefix key (c :: cs) with
    | some rest => some rest
    | none => afterFirst key cs

def USER_ID : List Char := "\"user_id\"".toList

/-- What is between the first two colons, without the space in front: `find` asks for something that is no
digit behind the number. -/
def readId (afterColon : List Char) : Option Int32 :=
  let trimmed := afterColon.dropWhile isWhiteSpace
  if trimmed.all Char.isDigit then none
  else (readI32 (trimmed.takeWhile Char.isDigit)).map Int32.ofInt

def decodeJwtUserId (jwt : String) : Option Int32 := do
  let payload ← (jwt.toList.splitOn '.')[1]?
  let bytes ← base64urlDecode (String.ofList payload)
  let json ← String.fromUTF8? ⟨bytes.toArray⟩
  let afterKey ← afterFirst USER_ID json.toList
  let afterColon ← (afterKey.splitOn ':')[1]?
  readId afterColon

/-! ## What it finds -/

theorem afterFirst_append {key before : List Char} (h : ¬ key <:+: before ++ key.dropLast) (rest : List Char) :
    afterFirst key (before ++ (key ++ rest)) = some rest := by
  induction before with
  | nil =>
    have hstrip := stripPrefix_append key rest
    rw [List.nil_append]
    cases hcs : key ++ rest with
    | nil =>
      rw [hcs] at hstrip
      exact hstrip
    | cons c cs =>
      rw [hcs] at hstrip
      rw [afterFirst, hstrip]
  | cons c before ih =>
    have hnone : stripPrefix key (c :: (before ++ (key ++ rest))) = none := by
      refine if_neg fun hprefix => h ?_
      -- A key that starts here would end before the last character of the one that follows.
      have hcut : c :: (before ++ (key ++ rest)) =
          (c :: before ++ key.dropLast) ++ (key.drop (key.length - 1) ++ rest) := by
        rw [List.dropLast_eq_take, ← List.append_assoc (_ ++ _), List.append_assoc (c :: before),
          List.take_append_drop, List.cons_append, List.cons_append, List.append_assoc]
      rw [List.isPrefixOf_iff_prefix, hcut] at hprefix
      refine (List.prefix_of_prefix_length_le hprefix (List.prefix_append _ _) ?_).isInfix
      simp only [List.cons_append, List.length_cons, List.length_append, List.length_dropLast]
      omega
    have hrest := ih fun hfound => h (hfound.trans (List.suffix_cons c _).isInfix)
    rw [List.cons_append, afterFirst, hnone, hrest]

theorem splitOn_append {c : Char} {front : List Char} (h : c ∉ front) (cs : List Char) :
    (front ++ cs).splitOn c = (cs.splitOn c).modifyHead (front ++ ·) := by
  induction front with
  | nil =>
    rw [List.nil_append]
    cases cs.splitOn c <;> rfl
  | cons d front ih =>
    obtain ⟨hd, hfront⟩ := not_or.mp fun hmem => h (List.mem_cons.mpr hmem)
    rw [List.cons_append, List.splitOn_cons_eq_if_modifyHead, if_neg (by simpa using Ne.symm hd), ih hfront]
    cases cs.splitOn c <;> rfl

theorem splitOn_append_cons {c : Char} {front : List Char} (h : c ∉ front) (cs : List Char) :
    (front ++ c :: cs).splitOn c = front :: cs.splitOn c := by
  rw [splitOn_append h, List.splitOn_cons_eq_if_modifyHead, if_pos (beq_self_eq_true c)]
  simp

theorem stop_notMem_b64urlEncode (b : Bytes) : '.' ∉ (b64urlEncode b).toList := by
  rw [toList_b64urlEncode]
  intro hmem
  obtain ⟨d, -, hletter⟩ := List.mem_map.mp hmem
  have hstop : '.' ∈ ALPHABET := hletter ▸ List.get_mem _ _
  exact absurd hstop (by decide)

theorem digits_toString {v : ℤ} (hv : 0 ≤ v) :
    (toString v).toList ≠ [] ∧ ∀ c ∈ (toString v).toList, c.isDigit = true := by
  obtain ⟨n, rfl⟩ := Int.eq_ofNat_of_zero_le hv
  have hdigits : (toString (n : ℤ)).toList = Nat.toDigits 10 n := Nat.toList_repr
  rw [hdigits]
  exact ⟨Nat.toDigits_ne_nil, fun c => isDigit_of_mem_toDigits⟩

theorem readId_append {space : List Char} (hspace : ∀ c ∈ space, isWhiteSpace c = true) {uid : Int32}
    (huid : 0 ≤ uid.toInt) {c : Char} (hc : c.isDigit = false) (tail : List Char) :
    readId (space ++ ((toString uid.toInt).toList ++ c :: tail)) = some uid := by
  obtain ⟨hne, hdigits⟩ := digits_toString huid
  have hread : readI32 (toString uid.toInt).toList = some uid.toInt :=
    readInt_toString (by decide) (by decide) ⟨uid.le_toInt, Int.le_of_lt_add_one uid.toInt_lt⟩
  generalize (toString uid.toInt).toList = digits at hne hdigits hread
  have htrimmed : (space ++ (digits ++ c :: tail)).dropWhile isWhiteSpace = digits ++ c :: tail := by
    rw [List.dropWhile_append_of_pos hspace]
    cases digits with
    | nil => exact absurd rfl hne
    | cons d digits =>
      have hd := isWhiteSpace_of_isDigit (hdigits d List.mem_cons_self)
      rw [List.cons_append, List.dropWhile_cons_of_neg (by simp [hd])]
  have hnumber : (digits ++ c :: tail).takeWhile Char.isDigit = digits := by
    rw [List.takeWhile_append_of_pos hdigits, List.takeWhile_cons_of_neg (by simp [hc]), List.append_nil]
  have hfind : (digits ++ c :: tail).all Char.isDigit = false := by
    simp [hc]
  rw [readId, htrimmed, hnumber, hread, if_neg (by simp [hfind]), Option.map_some, Int32.ofInt_toInt]

-- A number at the end of the text is not found.
example : readId [' ', '4', '2'] = none := by decide

/-- The id behind the first key of a token's text is found, whatever the text is otherwise, as long as
something other than a digit and a colon follows it. -/
theorem decodeJwtUserId_token {header : List Char} (hheader : '.' ∉ header) (signature : List Char)
    {before gap space after : List Char} (hbefore : ¬ USER_ID <:+: before ++ USER_ID.dropLast)
    (hgap : ':' ∉ gap) (hspace : ∀ c ∈ space, isWhiteSpace c = true) {uid : Int32} (huid : 0 ≤ uid.toInt)
    {c : Char} (hc : c.isDigit = false) (hcolon : c ≠ ':') {json : String}
    (hjson : json.toList =
      before ++ (USER_ID ++ (gap ++ ':' :: (space ++ ((toString uid.toInt).toList ++ c :: after))))) :
    decodeJwtUserId (String.ofList
      (header ++ '.' :: ((b64urlEncode json.toUTF8.data.toList).toList ++ '.' :: signature))) = some uid := by
  have hfront : ':' ∉ space ++ ((toString uid.toInt).toList ++ [c]) := by
    intro hmem
    simp only [List.mem_append, List.mem_singleton] at hmem
    rcases hmem with hmem | hmem | hmem
    · exact absurd (hspace _ hmem) (by decide)
    · exact absurd ((digits_toString huid).2 _ hmem) (by decide)
    · exact hcolon hmem.symm
  have hnumber : ((gap ++ ':' :: (space ++ ((toString uid.toInt).toList ++ c :: after))).splitOn ':')[1]? =
      some (space ++ ((toString uid.toInt).toList ++ c :: (after.splitOn ':').headD [])) := by
    have hcut : space ++ ((toString uid.toInt).toList ++ c :: after) =
        (space ++ ((toString uid.toInt).toList ++ [c])) ++ after := by
      simp
    rw [splitOn_append_cons hgap, hcut, splitOn_append hfront]
    cases hsplit : after.splitOn ':' with
    | nil => exact absurd hsplit (List.splitOn_ne_nil _ _)
    | cons first rest => simp
  have hpayload := splitOn_append_cons (stop_notMem_b64urlEncode json.toUTF8.data.toList) signature
  simp only [decodeJwtUserId, String.toList_ofList, splitOn_append_cons hheader, hpayload,
    List.getElem?_cons_succ, List.getElem?_cons_zero, String.ofList_toList, base64urlDecode_b64urlEncode,
    fromUTF8?_toUTF8, Option.bind_eq_bind, Option.bind_some]
  rw [hjson, afterFirst_append hbefore, Option.bind_some, hnumber, Option.bind_some,
    readId_append hspace huid hc]

end BaleVpn.Signaling
