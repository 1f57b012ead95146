import Mathlib

/-! # Base64 with padding

The standard alphabet, three octets in four characters. `decode` reads as the lenient decoder does:
line breaks are skipped and the bits under the padding are not looked at. -/
namespace Base64

open Option

def digit (n : Nat) : Char :=
  if n < 26 then Char.ofNat (65 + n)
  else if n < 52 then Char.ofNat (71 + n)
  else if n < 62 then Char.ofNat (n - 4)
  else if n = 62 then '+' else '/'

def digitValue (c : Char) : Option Nat :=
  if 65 ≤ c.toNat ∧ c.toNat ≤ 90 then some (c.toNat - 65)
  else if 97 ≤ c.toNat ∧ c.toNat ≤ 122 then some (c.toNat - 71)
  else if 48 ≤ c.toNat ∧ c.toNat ≤ 57 then some (c.toNat + 4)
  else if c = '+' then some 62
  else if c = '/' then some 63
  else none

@[grind] def encode : List UInt8 → List Char
  | [] => []
  | [a] => [digit (a.toNat / 4), digit (a.toNat % 4 * 16), '=', '=']
  | [a, b] =>
    [digit (a.toNat / 4), digit (a.toNat % 4 * 16 + b.toNat / 16), digit (b.toNat % 16 * 4), '=']
  | a :: b :: c :: rest =>
    digit (a.toNat / 4) :: digit (a.toNat % 4 * 16 + b.toNat / 16) ::
      digit (b.toNat % 16 * 4 + c.toNat / 64) :: digit (c.toNat % 64) :: encode rest

/-- The octets of the characters, four at a time. Padding is read only at the end. -/
@[grind] def decodeQuads : List Char → Option (List UInt8)
  | [] => some []
  | a :: b :: c :: d :: rest => do
    let p ← digitValue a
    let q ← digitValue b
    if rest = [] ∧ c = '=' ∧ d = '=' then
      return [UInt8.ofNat (p * 4 + q / 16)]
    let r ← digitValue c
    if rest = [] ∧ d = '=' then
      return [UInt8.ofNat (p * 4 + q / 16), UInt8.ofNat (q % 16 * 16 + r / 4)]
    let s ← digitValue d
    let tail ← decodeQuads rest
    return UInt8.ofNat (p * 4 + q / 16) :: UInt8.ofNat (q % 16 * 16 + r / 4) ::
      UInt8.ofNat (r % 4 * 64 + s) :: tail
  | _ => none

def decode (text : List Char) : Option (List UInt8) :=
  decodeQuads (text.filter fun c => c ≠ '\r' ∧ c ≠ '\n')

theorem digitValue_digit {n : Nat} (h : n < 64) : digitValue (digit n) = some n := by
  have hAll : ∀ k : Fin 64, digitValue (digit k) = some k.val := by decide
  exact hAll ⟨n, h⟩

theorem digit_plain {n : Nat} (h : n < 64) :
    digit n ≠ '=' ∧ digit n ≠ '\r' ∧ digit n ≠ '\n' ∧ 0x20 ≤ (digit n).toNat ∧ (digit n).toNat < 128 ∧
      digit n ≠ '"' ∧ digit n ≠ '\\' ∧ digit n ≠ '<' ∧ digit n ≠ '>' ∧ digit n ≠ '&' := by
  have hAll : ∀ k : Fin 64, digit k ≠ '=' ∧ digit k ≠ '\r' ∧ digit k ≠ '\n' ∧
      0x20 ≤ (digit k).toNat ∧ (digit k).toNat < 128 ∧ digit k ≠ '"' ∧ digit k ≠ '\\' ∧
      digit k ≠ '<' ∧ digit k ≠ '>' ∧ digit k ≠ '&' := by decide
  exact hAll ⟨n, h⟩

theorem length_encode (data : List UInt8) : (encode data).length = 4 * ((data.length + 2) / 3) := by
  induction data using encode.induct with
  | case1 => rfl
  | case2 => simp [encode]
  | case3 => simp [encode]
  | case4 a b c rest ih =>
    simp only [encode, List.length_cons, ih]
    omega

theorem mem_encode {data : List UInt8} {c : Char} (h : c ∈ encode data) :
    c = '=' ∨ ∃ n < 64, c = digit n := by
  induction data using encode.induct with
  | case1 => cases h
  | case2 a =>
    have ha := a.toNat_lt
    simp only [encode, List.mem_cons, List.not_mem_nil, or_false] at h
    rcases h with rfl | rfl | rfl | rfl
    · exact .inr ⟨_, by omega, rfl⟩
    · exact .inr ⟨_, by omega, rfl⟩
    · exact .inl rfl
    · exact .inl rfl
  | case3 a b =>
    have ha := a.toNat_lt
    have hb := b.toNat_lt
    simp only [encode, List.mem_cons, List.not_mem_nil, or_false] at h
    rcases h with rfl | rfl | rfl | rfl
    · exact .inr ⟨_, by omega, rfl⟩
    · exact .inr ⟨_, by omega, rfl⟩
    · exact .inr ⟨_, by omega, rfl⟩
    · exact .inl rfl
  | case4 a b x rest ih =>
    have ha := a.toNat_lt
    have hb := b.toNat_lt
    have hx := x.toNat_lt
    simp only [encode, List.mem_cons] at h
    rcases h with rfl | rfl | rfl | rfl | hRest
    · exact .inr ⟨_, by omega, rfl⟩
    · exact .inr ⟨_, by omega, rfl⟩
    · exact .inr ⟨_, by omega, rfl⟩
    · exact .inr ⟨_, by omega, rfl⟩
    · exact ih hRest

theorem ofNat_of_toNat_eq {n : Nat} {a : UInt8} (h : n = a.toNat) : UInt8.ofNat n = a := by
  rw [h]
  exact UInt8.ofNat_toNat

theorem decodeQuads_encode (data : List UInt8) : decodeQuads (encode data) = some data := by
  induction data using encode.induct with
  | case1 => rfl
  | case2 a =>
    have ha := a.toNat_lt
    simp only [encode, decodeQuads, digitValue_digit (show a.toNat / 4 < 64 by omega),
      digitValue_digit (show a.toNat % 4 * 16 < 64 by omega), bind_eq_bind, bind_some,
      and_self, if_true, pure_def]
    rw [ofNat_of_toNat_eq (a := a) (by omega)]
  | case3 a b =>
    have ha := a.toNat_lt
    have hb := b.toNat_lt
    have hThird : b.toNat % 16 * 4 < 64 := by omega
    simp only [encode, decodeQuads, digitValue_digit (show a.toNat / 4 < 64 by omega),
      digitValue_digit (show a.toNat % 4 * 16 + b.toNat / 16 < 64 by omega), digitValue_digit hThird,
      (digit_plain hThird).1, bind_eq_bind, bind_some, and_self, false_and, and_false,
      if_true, if_false, pure_def]
    rw [ofNat_of_toNat_eq (a := a) (by omega), ofNat_of_toNat_eq (a := b) (by omega)]
  | case4 a b c rest ih =>
    have ha := a.toNat_lt
    have hb := b.toNat_lt
    have hc := c.toNat_lt
    have hFourth : c.toNat % 64 < 64 := by omega
    simp only [encode, decodeQuads, digitValue_digit (show a.toNat / 4 < 64 by omega),
      digitValue_digit (show a.toNat % 4 * 16 + b.toNat / 16 < 64 by omega),
      digitValue_digit (show b.toNat % 16 * 4 + c.toNat / 64 < 64 by omega), digitValue_digit hFourth,
      (digit_plain hFourth).1, ih, bind_eq_bind, bind_some, and_false, if_false,
      pure_def]
    rw [ofNat_of_toNat_eq (a := a) (by omega), ofNat_of_toNat_eq (a := b) (by omega),
      ofNat_of_toNat_eq (a := c) (by omega)]

theorem decode_encode (data : List UInt8) : decode (encode data) = some data := by
  have hKept : (encode data).filter (fun c => c ≠ '\r' ∧ c ≠ '\n') = encode data := by
    rw [List.filter_eq_self]
    intro c hc
    rcases mem_encode hc with rfl | ⟨n, hn, rfl⟩
    · decide
    · have hPlain := digit_plain hn
      simp [hPlain.2.1, hPlain.2.2.1]
  rw [decode, hKept, decodeQuads_encode]

end Base64
