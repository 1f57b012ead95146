import Mathlib

/-! # UTF-8 texts as byte lists

Byte strings are lists of octets. `utf8` is the encoding of a sequence of Unicode scalar values
by the core library's per-character encoder. The lemmas let a byte-level scanner be read as a
scanner of characters: an octet below `0x80` is always one ASCII character, and the octets of every
other character are all at least `0x80`. -/
namespace Json

open List
open String (utf8EncodeChar)

abbrev Bytes := List UInt8

def utf8 (text : List Char) : Bytes := text.flatMap utf8EncodeChar

/-- The standard library's `utf8.Valid`. -/
def utf8Valid (data : Bytes) : Bool := data.toByteArray.validateUTF8

@[simp] theorem utf8_nil : utf8 [] = [] := rfl

@[simp] theorem utf8_cons (c : Char) (text : List Char) :
    utf8 (c :: text) = utf8EncodeChar c ++ utf8 text := rfl

@[simp] theorem utf8_append (a b : List Char) : utf8 (a ++ b) = utf8 a ++ utf8 b := by
  simp [utf8]

variable {c : Char} {text : List Char}

theorem encodeChar_ascii (h : c.toNat < 128) : utf8EncodeChar c = [c.toUInt8] := by
  have hv : c.val.toNat ≤ 127 := by change c.toNat ≤ 127; omega
  rw [utf8EncodeChar, if_pos hv]
  change [c.val.toNat.toUInt8] = [c.val.toUInt8]
  rw [UInt32.toUInt8, Nat.toUInt8]

theorem encodeChar_not_ascii (h : 128 ≤ c.toNat) : ∀ b ∈ utf8EncodeChar c, 128 ≤ b.toNat := by
  have hv : ¬ c.val.toNat ≤ 127 := by change ¬ c.toNat ≤ 127; omega
  rw [utf8EncodeChar, if_neg hv]
  intro b hb
  split at hb
  · simp only [mem_cons, not_mem_nil, or_false] at hb
    rcases hb with rfl | rfl <;> simp only [UInt8.toNat_ofNat'] <;> omega
  split at hb
  · simp only [mem_cons, not_mem_nil, or_false] at hb
    rcases hb with rfl | rfl | rfl <;> simp only [UInt8.toNat_ofNat'] <;> omega
  · simp only [mem_cons, not_mem_nil, or_false] at hb
    rcases hb with rfl | rfl | rfl | rfl <;> simp only [UInt8.toNat_ofNat'] <;> omega

theorem encodeChar_high (h : ¬c.toNat < 128) :
    ∃ b bytes, utf8EncodeChar c = b :: bytes ∧ 128 ≤ b.toNat := by
  obtain ⟨b, bytes, hBytes⟩ := exists_cons_of_ne_nil (String.utf8EncodeChar_ne_nil (c := c))
  exact ⟨b, bytes, hBytes, encodeChar_not_ascii (Nat.le_of_not_lt h) b (by simp [hBytes])⟩

theorem toNat_toUInt8 (h : c.toNat < 128) : c.toUInt8.toNat = c.toNat := by
  change c.val.toUInt8.toNat = c.val.toNat
  rw [UInt32.toNat_toUInt8]
  exact Nat.mod_eq_of_lt (by change c.toNat < 256; omega)

theorem utf8_injective : Function.Injective utf8 := by
  intro a b h
  have hArray : a.utf8Encode = b.utf8Encode := congrArg List.toByteArray h
  have hDec := congrArg ByteArray.utf8Decode? hArray
  rw [utf8Decode?_utf8Encode, utf8Decode?_utf8Encode] at hDec
  simpa using hDec

theorem toByteArray_injective {a b : Bytes} (h : a.toByteArray = b.toByteArray) : a = b := by
  have hData := congrArg (fun bytes : ByteArray => bytes.data.toList) h
  simpa using hData

theorem utf8Valid_iff (data : Bytes) : utf8Valid data ↔ ∃ text, data = utf8 text := by
  rw [utf8Valid, ByteArray.validateUTF8_eq_true_iff]
  constructor
  · rintro ⟨text, hText⟩
    exact ⟨text, toByteArray_injective hText⟩
  · rintro ⟨text, rfl⟩
    exact ⟨text, rfl⟩

theorem utf8_eq_cons {b : UInt8} {rest : Bytes} (h : utf8 text = b :: rest) (hb : b.toNat < 128) :
    ∃ c tail, text = c :: tail ∧ c.toNat < 128 ∧ c.toUInt8 = b ∧ utf8 tail = rest := by
  cases text with
  | nil => cases h
  | cons c tail =>
    by_cases hc : c.toNat < 128
    · rw [utf8_cons, encodeChar_ascii hc] at h
      obtain ⟨hHead, hTail⟩ := List.cons.inj h
      exact ⟨c, tail, rfl, hc, hHead, hTail⟩
    · obtain ⟨head, more, hBytes, hHigh⟩ := encodeChar_high hc
      rw [utf8_cons, hBytes] at h
      obtain ⟨rfl, -⟩ := List.cons.inj h
      omega

theorem toUInt8_inj {d : Char} (hc : c.toNat < 128) (h : c.toUInt8 = d.toUInt8)
    (hd : d.toNat < 128) : c = d := by
  have hNat := congrArg UInt8.toNat h
  rw [toNat_toUInt8 hc, toNat_toUInt8 hd] at hNat
  exact Char.toNat_inj.mp hNat

theorem utf8_eq_cons_ascii {x : Char} {b : UInt8} {rest : Bytes} (h : utf8 text = b :: rest)
    (hb : b = x.toUInt8) (hx : x.toNat < 128) :
    ∃ tail, text = x :: tail ∧ utf8 tail = rest := by
  subst hb
  obtain ⟨c, tail, rfl, hc, hByte, hTail⟩ := utf8_eq_cons h (by rw [toNat_toUInt8 hx]; exact hx)
  obtain rfl := toUInt8_inj hc hByte hx
  exact ⟨tail, rfl, hTail⟩

theorem utf8_ascii (h : ∀ c ∈ text, c.toNat < 128) : utf8 text = text.map Char.toUInt8 := by
  induction text with
  | nil => rfl
  | cons c tail ih =>
    rw [utf8_cons, encodeChar_ascii (h c (by simp)), ih (fun d hd => h d (by simp [hd]))]
    rfl

theorem utf8_enclosed {a b : Char} (ha : a.toNat < 128) (hb : b.toNat < 128) (text : List Char) :
    utf8 (a :: text ++ [b]) = a.toUInt8 :: (utf8 text ++ [b.toUInt8]) := by
  rw [cons_append, utf8_cons, utf8_append, encodeChar_ascii ha, utf8_cons, encodeChar_ascii hb]
  rfl

end Json
