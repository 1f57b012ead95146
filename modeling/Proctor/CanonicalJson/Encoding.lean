import Proctor.Json.Containers
import Proctor.CanonicalJson.Canonicalize

/-! # The encoder in terms of documents

What `appendString`, `parseInt` and `appendMembers` write and read on the octets of decoded keys,
number spellings and encoded members. -/
namespace Proctor.CanonicalJson

open Json List
open Option (filter_some map_some)

theorem appendCharacter_ascii : ∀ n : Fin 128,
    appendCharacter (Char.ofNat n).toUInt8 = utf8 (itemText (canonicalItem (Char.ofNat n))) := by
  decide +kernel

theorem appendCharacter_high {b : UInt8} (h : 128 ≤ b.toNat) : appendCharacter b = [b] := by
  have hne (x : Char) (hx : x.toNat < 128) : b ≠ x.toUInt8 := byte_ne_ascii h hx
  have hCtl : ¬ b < 0x20 := by
    rw [UInt8.lt_iff_toNat_lt]
    change ¬ b.toNat < 32
    omega
  rw [appendCharacter, if_neg (not_or.mpr ⟨hne _ (by decide), hne _ (by decide)⟩),
    if_neg (hne _ (by decide)), if_neg (hne _ (by decide)), if_neg (hne _ (by decide)),
    if_neg (hne _ (by decide)), if_neg (hne _ (by decide)), if_neg hCtl]

theorem canonicalItem_high {c : Char} (h : 128 ≤ c.toNat) : canonicalItem c = .raw c := by
  have hne (x : Char) (hx : x.toNat < 128) : c ≠ x := by rintro rfl; omega
  simp only [canonicalItem, hne '"' (by decide), hne '\\' (by decide), hne '\x08' (by decide),
    hne '\x0c' (by decide), hne '\n' (by decide), hne '\r' (by decide), hne '\t' (by decide),
    if_false, if_neg (show ¬ c.toNat < 0x20 by omega)]

theorem flatMap_appendCharacter (s : List Char) :
    (utf8 s).flatMap appendCharacter = utf8 (s.flatMap fun c => itemText (canonicalItem c)) := by
  induction s with
  | nil => rfl
  | cons c s ih =>
    rw [utf8_cons, flatMap_append, ih, flatMap_cons, utf8_append]
    congr 1
    by_cases hc : c.toNat < 128
    · have hAscii := appendCharacter_ascii ⟨c.toNat, hc⟩
      simp only [Char.ofNat_toNat] at hAscii
      rw [encodeChar_ascii hc, flatMap_singleton, hAscii]
    have hHigh := encodeChar_not_ascii (c := c) (by omega)
    rw [canonicalItem_high (by omega)]
    change _ = String.utf8EncodeChar c ++ []
    rw [append_nil]
    generalize String.utf8EncodeChar c = bytes at hHigh
    induction bytes with
    | nil => rfl
    | cons b bytes ihBytes =>
      rw [flatMap_cons, appendCharacter_high (hHigh b (by simp)),
        ihBytes fun d hd => hHigh d (by simp [hd])]
      rfl

theorem appendString_utf8 (encoded : Bytes) (s : List Char) :
    appendString encoded (utf8 s) = encoded ++ utf8 (quoted s) := by
  rw [appendString, flatMap_appendCharacter, quoted, utf8_enclosed (by decide) (by decide),
    append_assoc]
  rfl

theorem ascii_utf8 (s : List Char) : ascii (utf8 s) ↔ ∀ c ∈ s, c.toNat < 128 := by
  have hLow (b : UInt8) : decide (b < 0x80) ↔ b.toNat < 128 := by
    rw [decide_eq_true_eq, UInt8.lt_iff_toNat_lt]
    rfl
  simp only [ascii, all_eq_true, hLow]
  constructor
  · intro h c hc
    by_contra hHigh
    obtain ⟨b, bytes, hBytes, hb⟩ := encodeChar_high hHigh
    have := h b (mem_flatMap.mpr ⟨c, hc, by simp [hBytes]⟩)
    omega
  · intro h b hb
    obtain ⟨c, hc, hb⟩ := mem_flatMap.mp hb
    rw [encodeChar_ascii (h c hc), mem_singleton] at hb
    rw [hb, toNat_toUInt8 (h c hc)]
    exact h c hc

theorem all_isDigitByte (digits : List Char) :
    (utf8 digits).all isDigitByte = digits.all Char.isDigit := by
  induction digits with
  | nil => rfl
  | cons c digits ih =>
    rw [utf8_cons, all_append, ih, all_cons]
    congr 1
    by_cases hc : c.toNat < 128
    · rw [encodeChar_ascii hc]
      simp [isDigitByte_toUInt8 hc]
    have hDigit : c.isDigit = false := by
      rw [Bool.eq_false_iff, Ne, isDigit_iff]
      omega
    obtain ⟨b, bytes, hBytes, hb⟩ := encodeChar_high hc
    have hByte : isDigitByte b = false := by
      rw [Bool.eq_false_iff, Ne, isDigitByte_iff]
      omega
    rw [hDigit, hBytes, all_cons, hByte, Bool.false_and]

theorem characters_of_digits {digits : List Char} (h : digits.all Char.isDigit) :
    (utf8 digits).map (fun b => Char.ofNat b.toNat) = digits := by
  have hAscii : ∀ c ∈ digits, c.toNat < 128 := by
    intro c hc
    have := (isDigit_iff c).mp (all_eq_true.mp h c hc)
    omega
  rw [utf8_ascii hAscii, map_map]
  conv_rhs => rw [← map_id digits]
  exact map_congr_left fun c hc => ofNat_toNat_toUInt8 (hAscii c hc)

theorem natural_utf8 (digits : List Char) : natural digits =
      if utf8 digits = [] ∨ ¬ (utf8 digits).all isDigitByte then none
      else some (Nat.ofDigitChars 10 ((utf8 digits).map fun b => Char.ofNat b.toNat) 0) := by
  have hNil : utf8 digits = [] ↔ digits = [] :=
    ⟨fun h => utf8_injective h, fun h => by rw [h]; rfl⟩
  rw [natural, all_isDigitByte]
  by_cases h : digits ≠ [] ∧ digits.all Char.isDigit = true
  · rw [if_pos h, if_neg (by rw [hNil, not_or]; exact ⟨h.1, not_not.mpr h.2⟩),
      characters_of_digits h.2]
  · rw [if_neg h, if_pos (by rw [hNil]; tauto)]

theorem parseSign_plain {c : Char} {rest : List Char} (hMinus : c ≠ '-') (hPlus : c ≠ '+') :
    parseSign (utf8 (c :: rest)) = (false, utf8 (c :: rest)) := by
  cases hText : utf8 (c :: rest) with
  | nil => rfl
  | cons b bytes =>
    have hByte (x : Char) (hx : x.toNat < 128) (hne : c ≠ x) : b ≠ x.toUInt8 := by
      rintro rfl
      obtain ⟨tail, hEq, -⟩ := utf8_eq_cons_ascii hText rfl hx
      exact hne (List.cons.inj hEq).1
    rw [parseSign, if_neg (hByte '-' (by decide) hMinus), if_neg (hByte '+' (by decide) hPlus)]

theorem parseInt_utf8 {spelling : List Char} (h : spelling.head? ≠ some '+') :
    parseInt (utf8 spelling) = (integer spelling).filter fun n => -(2 ^ 63) ≤ n ∧ n < 2 ^ 63 := by
  cases spelling with
  | nil => rfl
  | cons c rest =>
    by_cases hMinus : c = '-'
    · subst hMinus
      have hSign : parseSign (utf8 ('-' :: rest)) = (true, utf8 rest) := rfl
      simp only [parseInt, hSign, integer, natural_utf8, if_true]
      split
      · rfl
      generalize Nat.ofDigitChars 10 _ 0 = n
      by_cases hn : n ≤ 2 ^ 63
      · rw [if_pos hn, map_some, filter_some, if_pos (by simp; omega)]
      · rw [if_neg hn, map_some, filter_some, if_neg (by simp; omega)]
    · have hPlus : c ≠ '+' := fun hc => h (by rw [hc]; rfl)
      have hHead : (c :: rest).head? ≠ some '-' := by simpa using hMinus
      simp only [parseInt, parseSign_plain hMinus hPlus, integer_of_head hHead, natural_utf8]
      split
      · rfl
      generalize Nat.ofDigitChars 10 _ 0 = n
      by_cases hn : n < 2 ^ 63
      · rw [if_neg (by simp), if_pos hn, map_some, filter_some,
          if_pos (by simp; omega)]
      · rw [if_neg (by simp), if_neg hn, map_some, filter_some,
          if_neg (by simp; omega)]

def encodedMembers (members : List (List Char × Doc)) : List (Bytes × Bytes) :=
  members.map fun m => (utf8 m.1, utf8 m.2.text)

variable {members : List (List Char × Doc)}

theorem lookup_encodedMembers
    (hKeys : (members.map Prod.fst).Nodup) {m : List Char × Doc} (hm : m ∈ members) :
    (encodedMembers members).lookup (utf8 m.1) = some (utf8 m.2.text) := by
  induction members with
  | nil => cases hm
  | cons member members ih =>
    rw [map_cons, nodup_cons] at hKeys
    rw [encodedMembers, map_cons, lookup_cons]
    rcases mem_cons.mp hm with rfl | hTail
    · simp
    have hne : utf8 m.1 ≠ utf8 member.1 := by
      intro hEq
      apply hKeys.1
      rw [← utf8_injective hEq]
      exact mem_map_of_mem hTail
    rw [beq_eq_false_iff_ne.mpr hne]
    exact ih hKeys.2 hTail

theorem lookup_isSome_iff (members : List (List Char × Doc)) (key : List Char) :
    ((encodedMembers members).lookup (utf8 key)).isSome ↔ key ∈ members.map Prod.fst := by
  induction members with
  | nil => simp [encodedMembers]
  | cons member members ih =>
    rw [encodedMembers, map_cons, lookup_cons, map_cons, mem_cons]
    by_cases hEq : key = member.1
    · simp [hEq]
    have hne : utf8 key ≠ utf8 member.1 := fun h => hEq (utf8_injective h)
    rw [beq_eq_false_iff_ne.mpr hne]
    exact ih.trans (by simp [hEq])

theorem utf8_comma (text : List Char) : utf8 (',' :: text) = ','.toUInt8 :: utf8 text := rfl

variable (hKeys : (members.map Prod.fst).Nodup)
include hKeys

theorem appendMembers_utf8
    (chosen : List (List Char × Doc)) (h : ∀ m ∈ chosen, m ∈ members) :
    ∀ (index : Nat) (encoded : Bytes),
      appendMembers (encodedMembers members) index encoded (chosen.map fun m => utf8 m.1) =
        encoded ++ utf8 (if index = 0 then separated (chosen.map memberText)
          else (chosen.map memberText).flatMap (',' :: ·)) := by
  induction chosen with
  | nil => intro index encoded; split <;> simp [appendMembers, separated]
  | cons m chosen ih =>
    intro index encoded
    have hLookup := lookup_encodedMembers hKeys (h m (by simp))
    have hMember : utf8 (memberText m) = utf8 (quoted m.1) ++ ':'.toUInt8 :: utf8 m.2.text := by
      rw [memberText, utf8_append, utf8_cons, encodeChar_ascii (by decide), singleton_append]
    rw [map_cons, appendMembers, ih (fun x hx => h x (by simp [hx])), hLookup,
      if_neg (Nat.succ_ne_zero index)]
    simp only [appendString_utf8, Option.getD_some]
    by_cases hIndex : index = 0
    · subst hIndex
      simp [separated, hMember, append_assoc]
    rw [if_pos (Nat.pos_of_ne_zero hIndex), if_neg hIndex, map_cons, flatMap_cons,
      cons_append, utf8_comma, utf8_append, hMember]
    simp only [append_assoc, cons_append, nil_append]

theorem appendMembers_sorted (encoded : Bytes) :
    appendMembers (encodedMembers members) 0 encoded
        (((encodedMembers members).map Prod.fst).insertionSort (· ≤ ·)) =
      encoded ++ utf8 (separated ((members.insertionSort keyLe).map memberText)) := by
  have hSorted : ((encodedMembers members).map Prod.fst).insertionSort (· ≤ ·) =
      (members.insertionSort keyLe).map fun m => utf8 m.1 := by
    rw [encodedMembers, map_map]
    exact (map_insertionSort (r := keyLe) (s := (· ≤ ·)) (fun m => utf8 m.1) members
      fun a _ b _ => Iff.rfl).symm
  rw [hSorted]
  have hMem : ∀ m ∈ members.insertionSort keyLe, m ∈ members := fun m hm =>
    (mem_insertionSort keyLe).mp hm
  rw [appendMembers_utf8 hKeys _ hMem 0 encoded, if_pos rfl]

end Proctor.CanonicalJson
