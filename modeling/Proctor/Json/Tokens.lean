import Proctor.Json.Lexing

/-! # Tokens of a UTF-8 text

Scalar tokens are the scalars of the grammar, and one call of the token reader passes over
whitespace and at most one separator before it. -/
namespace Json

open List Option

variable {word ds tail spelling : List Char} {rest : Bytes}

theorem utf8_eq_append_ascii (hWord : ∀ c ∈ word, c.toNat < 128) :
    ∀ {text : List Char} {rest : Bytes}, utf8 text = word.map Char.toUInt8 ++ rest →
      ∃ tail, text = word ++ tail ∧ utf8 tail = rest := by
  induction word with
  | nil => exact fun h => ⟨_, rfl, h⟩
  | cons c word ih =>
    intro text rest h
    obtain ⟨tail, rfl, hTail⟩ := utf8_eq_cons_ascii h rfl (hWord c (by simp))
    obtain ⟨tail', rfl, hRest⟩ := ih (fun d hd => hWord d (by simp [hd])) hTail
    exact ⟨tail', rfl, hRest⟩

variable {text : List Char}

theorem scanDigits_sound {digits : Bytes} (h : scanDigits (utf8 text) = some (digits, rest)) :
    ∃ ds tail, text = ds ++ tail ∧ Digits ds ∧ digits = utf8 ds ∧ rest = utf8 tail := by
  obtain ⟨hTake, hDrop⟩ := spanDigits text
  refine ⟨text.takeWhile Char.isDigit, text.dropWhile Char.isDigit,
    takeWhile_append_dropWhile.symm, ⟨?_, fun c hc => ?_⟩, ?_⟩
  · intro hNil
    rw [scanDigits, hTake, hNil] at h
    cases h
  · exact (all_eq_true.mp all_takeWhile) c hc
  · rw [scanDigits, hTake, hDrop] at h
    split at h
    · cases h
    · cases h
      exact ⟨rfl, rfl⟩

theorem scanSign_sound (text : List Char) :
    ∃ sign tail, text = sign ++ tail ∧ (sign = [] ∨ sign = ['-']) ∧
      scanSign (utf8 text) = (utf8 sign, utf8 tail) := by
  cases hText : utf8 text with
  | nil => exact ⟨[], text, rfl, .inl rfl, by rw [hText]; rfl⟩
  | cons b rest =>
    by_cases hb : b = '-'.toUInt8
    · subst hb
      obtain ⟨tail, rfl, rfl⟩ := utf8_eq_cons_ascii hText rfl (by decide)
      exact ⟨['-'], tail, rfl, .inr rfl, rfl⟩
    · exact ⟨[], text, rfl, .inl rfl, by rw [scanSign]; simp [hb, hText]⟩

theorem scanInteger_sound {int : Bytes} (h : scanInteger (utf8 text) = some (int, rest)) :
    ∃ ds tail, text = ds ++ tail ∧ IntegerPart ds ∧ int = utf8 ds ∧ rest = utf8 tail := by
  cases hText : utf8 text with
  | nil => rw [hText] at h; cases h
  | cons b more =>
    rw [hText, scanInteger] at h
    split at h
    next hb =>
      subst hb
      obtain ⟨tail, rfl, rfl⟩ := utf8_eq_cons_ascii hText rfl (by decide)
      cases h
      exact ⟨['0'], tail, rfl, .inl rfl, rfl, rfl⟩
    · rename_i hb
      rw [← hText] at h
      obtain ⟨ds, tail, rfl, hDigits, rfl, rfl⟩ := scanDigits_sound h
      refine ⟨ds, tail, rfl, .inr ⟨hDigits, fun hHead => hb ?_⟩, rfl, rfl⟩
      cases ds with
      | nil => cases hHead
      | cons d ds =>
        cases hHead
        exact (List.cons.inj hText).1.symm

theorem scanFraction_sound {frac : Bytes} (h : scanFraction (utf8 text) = some (frac, rest)) :
    ∃ ds tail, text = ds ++ tail ∧ FractionPart ds ∧ frac = utf8 ds ∧ rest = utf8 tail := by
  cases hText : utf8 text with
  | nil =>
    rw [hText] at h
    cases h
    exact ⟨[], text, rfl, .inl rfl, rfl, hText.symm⟩
  | cons b more =>
    rw [hText, scanFraction] at h
    split at h
    next hb =>
      subst hb
      obtain ⟨tail, rfl, rfl⟩ := utf8_eq_cons_ascii hText rfl (by decide)
      obtain ⟨⟨digits, rest'⟩, hScan, hEq⟩ := map_eq_some_iff.mp h
      obtain ⟨ds, tail', rfl, hDigits, rfl, rfl⟩ := scanDigits_sound hScan
      cases hEq
      refine ⟨'.' :: ds, tail', rfl, .inr ⟨ds, rfl, hDigits⟩, ?_, rfl⟩
      rw [utf8_cons, encodeChar_ascii (by decide), singleton_append]
    · cases h
      exact ⟨[], text, rfl, .inl rfl, rfl, hText.symm⟩

theorem scanExponentSign_sound (text : List Char) :
    ∃ sign tail, text = sign ++ tail ∧ (sign = [] ∨ sign = ['+'] ∨ sign = ['-']) ∧
      scanExponentSign (utf8 text) = (utf8 sign, utf8 tail) := by
  cases hText : utf8 text with
  | nil => exact ⟨[], text, rfl, .inl rfl, by rw [hText]; rfl⟩
  | cons b rest =>
    by_cases hPlus : b = '+'.toUInt8
    · subst hPlus
      obtain ⟨tail, rfl, rfl⟩ := utf8_eq_cons_ascii hText rfl (by decide)
      exact ⟨['+'], tail, rfl, .inr (.inl rfl), rfl⟩
    by_cases hMinus : b = '-'.toUInt8
    · subst hMinus
      obtain ⟨tail, rfl, rfl⟩ := utf8_eq_cons_ascii hText rfl (by decide)
      exact ⟨['-'], tail, rfl, .inr (.inr rfl), rfl⟩
    · exact ⟨[], text, rfl, .inl rfl, by rw [scanExponentSign]; simp [hPlus, hMinus, hText]⟩

theorem scanExponent_sound {exp : Bytes} (h : scanExponent (utf8 text) = some (exp, rest)) :
    ∃ ds tail, text = ds ++ tail ∧ ExponentPart ds ∧ exp = utf8 ds ∧ rest = utf8 tail := by
  cases hText : utf8 text with
  | nil =>
    rw [hText] at h
    cases h
    exact ⟨[], text, rfl, .inl rfl, rfl, hText.symm⟩
  | cons b more =>
    rw [hText, scanExponent] at h
    split at h
    · rename_i hb
      obtain ⟨e, he, rfl⟩ : ∃ e : Char, (e = 'e' ∨ e = 'E') ∧ b = e.toUInt8 := by
        simp only [Bool.or_eq_true, decide_eq_true_eq] at hb
        rcases hb with rfl | rfl
        · exact ⟨'e', .inl rfl, rfl⟩
        · exact ⟨'E', .inr rfl, rfl⟩
      have hAscii : e.toNat < 128 := by rcases he with rfl | rfl <;> decide
      obtain ⟨tail, rfl, rfl⟩ := utf8_eq_cons_ascii hText rfl hAscii
      obtain ⟨sign, tail', rfl, hSign, hScanSign⟩ := scanExponentSign_sound tail
      rw [hScanSign] at h
      obtain ⟨⟨digits, rest'⟩, hScan, hEq⟩ := map_eq_some_iff.mp h
      obtain ⟨ds, tail'', rfl, hDigits, rfl, rfl⟩ := scanDigits_sound hScan
      cases hEq
      refine ⟨e :: sign ++ ds, tail'', by simp, .inr ⟨e, sign, ds, rfl, he, hSign, hDigits⟩, ?_, rfl⟩
      rw [utf8_append, utf8_cons, encodeChar_ascii hAscii, singleton_append]
    · cases h
      exact ⟨[], text, rfl, .inl rfl, rfl, hText.symm⟩

theorem scanNumber_sound {spelling : Bytes} (h : scanNumber (utf8 text) = some (spelling, rest)) :
    ∃ body tail, text = body ++ tail ∧ NumberSpelling body ∧ spelling = utf8 body ∧
      rest = utf8 tail := by
  obtain ⟨sign, text₁, rfl, hSign, hScanSign⟩ := scanSign_sound text
  simp only [scanNumber, hScanSign, bind_eq_bind, bind_eq_some_iff] at h
  obtain ⟨⟨int, bytes₁⟩, hInt, ⟨frac, bytes₂⟩, hFrac, ⟨exp, bytes₃⟩, hExp, hEq⟩ := h
  obtain ⟨int', text₂, rfl, hIntPart, rfl, rfl⟩ := scanInteger_sound hInt
  obtain ⟨frac', text₃, rfl, hFracPart, rfl, rfl⟩ := scanFraction_sound hFrac
  obtain ⟨exp', text₄, rfl, hExpPart, rfl, rfl⟩ := scanExponent_sound hExp
  cases hEq
  exact ⟨sign ++ int' ++ frac' ++ exp', text₄, by simp,
    ⟨sign, int', frac', exp', rfl, hSign, hIntPart, hFracPart, hExpPart⟩, by simp, rfl⟩

/-- What may follow a number: none of these characters continues one. -/
def NumberStop (text : List Char) : Prop :=
  ∀ c, text.head? = some c → c.isDigit = false ∧ c ≠ '.' ∧ c ≠ 'e' ∧ c ≠ 'E'

theorem NumberStop.head_byte (hStop : NumberStop text) {b : UInt8}
    (h : utf8 text = b :: rest) {x : Char} (hx : x = '.' ∨ x = 'e' ∨ x = 'E') : b ≠ x.toUInt8 := by
  rintro rfl
  have hAscii : x.toNat < 128 := by rcases hx with rfl | rfl | rfl <;> decide
  obtain ⟨tail, rfl, -⟩ := utf8_eq_cons_ascii h rfl hAscii
  obtain ⟨-, hDot, he, hE⟩ := hStop x rfl
  rcases hx with rfl | rfl | rfl
  · exact hDot rfl
  · exact he rfl
  · exact hE rfl

theorem scanFraction_stop (h : NumberStop text) : scanFraction (utf8 text) = some ([], utf8 text) := by
  cases hText : utf8 text with
  | nil => rfl
  | cons b rest =>
    have hb := h.head_byte hText (x := '.') (.inl rfl)
    simp [scanFraction, hb]

theorem scanExponent_stop (h : NumberStop text) : scanExponent (utf8 text) = some ([], utf8 text) := by
  cases hText : utf8 text with
  | nil => rfl
  | cons b rest =>
    have he := h.head_byte hText (x := 'e') (.inr (.inl rfl))
    have hE := h.head_byte hText (x := 'E') (.inr (.inr rfl))
    simp [scanExponent, he, hE]

theorem takeWhile_digits (hDigits : ∀ c ∈ ds, c.isDigit)
    (hStop : NumberStop tail) : (ds ++ tail).takeWhile Char.isDigit = ds ∧
      (ds ++ tail).dropWhile Char.isDigit = tail := by
  rw [takeWhile_append_of_pos hDigits, dropWhile_append_of_pos hDigits]
  cases tail with
  | nil => simp
  | cons c tail => simp [(hStop c rfl).1]

theorem scanDigits_digits (hDigits : Digits ds) (hStop : NumberStop tail) :
    scanDigits (utf8 (ds ++ tail)) = some (utf8 ds, utf8 tail) := by
  obtain ⟨hTake, hDrop⟩ := spanDigits (ds ++ tail)
  obtain ⟨hTake', hDrop'⟩ := takeWhile_digits hDigits.2 hStop
  rw [scanDigits, hTake, hDrop, hTake', hDrop']
  have hne : utf8 ds ≠ [] := fun h => hDigits.1 (utf8_injective h)
  cases hBytes : utf8 ds with
  | nil => exact absurd hBytes hne
  | cons b bytes => rfl

theorem scanInteger_part (h : IntegerPart ds) (hStop : NumberStop tail) :
    scanInteger (utf8 (ds ++ tail)) = some (utf8 ds, utf8 tail) := by
  rcases h with rfl | ⟨hDigits, hHead⟩
  · rfl
  have hScan := scanDigits_digits hDigits hStop
  cases ds with
  | nil => exact absurd rfl hDigits.1
  | cons d ds =>
    have hDigit := (isDigit_iff d).mp (hDigits.2 d (by simp))
    have hZero : d.toUInt8 ≠ '0'.toUInt8 := fun hb =>
      hHead (by rw [toUInt8_inj (by omega) hb (by decide)]; rfl)
    rw [cons_append, utf8_cons, encodeChar_ascii (by omega), singleton_append] at hScan ⊢
    rw [scanInteger, if_neg hZero, hScan]

variable {n : Int}

theorem integer_digits (h : integer spelling = some n) :
    ∀ c ∈ spelling, c = '-' ∨ c.isDigit := by
  unfold integer at h
  split at h
  · obtain ⟨k, hk, -⟩ := map_eq_some_iff.mp h
    intro c hc
    rcases mem_cons.mp hc with rfl | hc
    · exact .inl rfl
    · exact .inr ((natural_eq_some hk).2.1 c hc)
  · obtain ⟨k, hk, -⟩ := map_eq_some_iff.mp h
    exact fun c hc => .inr ((natural_eq_some hk).2.1 c hc)

theorem numberSpelling_plain (h : NumberSpelling spelling) (hn : integer spelling = some n) :
    ∃ sign int, spelling = sign ++ int ∧ (sign = [] ∨ sign = ['-']) ∧ IntegerPart int := by
  obtain ⟨sign, int, frac, exp, rfl, hSign, hInt, hFrac, hExp⟩ := h
  have hChars := integer_digits hn
  rcases hFrac with rfl | ⟨ds, rfl, -⟩
  · rcases hExp with rfl | ⟨e, s, ds, rfl, he, -⟩
    · exact ⟨sign, int, by simp, hSign, hInt⟩
    · have hChar := hChars e (by simp)
      rcases he with rfl | rfl <;> exact absurd hChar (by decide)
  · exact absurd (hChars '.' (by simp)) (by decide)

theorem IntegerPart.head {int : List Char} (h : IntegerPart int) : ∃ d ds, int = d :: ds ∧ d.isDigit := by
  rcases h with rfl | ⟨⟨hne, hDigits⟩, -⟩
  · exact ⟨'0', [], rfl, by decide⟩
  · obtain ⟨d, ds, rfl⟩ := exists_cons_of_ne_nil hne
    exact ⟨d, ds, rfl, hDigits d (by simp)⟩

theorem scanSign_integer {sign int : List Char} (hSign : sign = [] ∨ sign = ['-'])
    (hInt : IntegerPart int) :
    scanSign (utf8 (sign ++ int ++ tail)) = (utf8 sign, utf8 (int ++ tail)) := by
  rcases hSign with rfl | rfl
  · obtain ⟨d, ds, rfl, hd⟩ := hInt.head
    have hRange := (isDigit_iff d).mp hd
    have hMinus : d.toUInt8 ≠ '-'.toUInt8 := by
      intro hb
      rw [toUInt8_inj (by omega) hb (by decide)] at hd
      exact absurd hd (by decide)
    simp only [nil_append, cons_append, utf8_cons, encodeChar_ascii (show d.toNat < 128 by omega)]
    rw [scanSign, if_neg hMinus]
    rfl
  · rfl

theorem scanNumber_plain (h : NumberSpelling spelling)
    (hn : integer spelling = some n) (hStop : NumberStop tail) :
    scanNumber (utf8 (spelling ++ tail)) = some (utf8 spelling, utf8 tail) := by
  obtain ⟨sign, int, rfl, hSign, hInt⟩ := numberSpelling_plain h hn
  simp only [scanNumber, scanSign_integer hSign hInt, scanInteger_part hInt hStop,
    scanFraction_stop hStop, scanExponent_stop hStop, bind_eq_bind, bind_some]
  simp

def TokenOf : Token → Tree → Prop
  | .null, .null => True
  | .bool a, .bool b => a = b
  | .string s, .str items => s = unquote (literals items)
  | .number spelling, .num body => spelling = utf8 body
  | _, _ => False

variable {token : Token}

theorem scanWord_sound {text : List Char} {result : Token × Bytes}
    (hWord : ∀ c ∈ word, c.toNat < 128) (h : scanWord word token (utf8 text) = some result) :
    ∃ tail, text = word ++ tail ∧ result = (token, utf8 tail) := by
  rw [scanWord] at h
  split at h
  · rename_i hTake
    have hSplit := take_append_drop word.length (utf8 text)
    rw [← hTake] at hSplit
    obtain ⟨tail, rfl, hTail⟩ := utf8_eq_append_ascii hWord hSplit.symm
    exact ⟨tail, rfl, by rw [hTail, Option.some.inj h]⟩
  · cases h

theorem scanScalar_sound (h : scanScalar (utf8 text) = some (token, rest)) :
    ∃ tree body tail, text = body ++ tail ∧ Spells tree body ∧ TokenOf token tree ∧
      rest = utf8 tail := by
  cases hText : utf8 text with
  | nil => rw [hText] at h; cases h
  | cons b more =>
    rw [hText, scanScalar] at h
    split at h
    next hb =>
      subst hb
      obtain ⟨tail, rfl, rfl⟩ := utf8_eq_cons_ascii hText rfl (by decide)
      obtain ⟨⟨scanned, rest'⟩, hScan, hEq⟩ := map_eq_some_iff.mp h
      obtain ⟨items, body, tail', rfl, hItems, hRes⟩ := scanString_sound _ tail _ rfl hScan
      cases hRes
      cases hEq
      exact ⟨.str items, '"' :: body ++ ['"'], tail', by simp, ⟨body, rfl, hItems⟩, rfl, rfl⟩
    · rw [← hText] at h
      split at h
      · obtain ⟨tail, rfl, hEq⟩ := scanWord_sound (by simp) h
        cases hEq
        exact ⟨.null, _, tail, rfl, rfl, trivial, rfl⟩
      split at h
      · obtain ⟨tail, rfl, hEq⟩ := scanWord_sound (by simp) h
        cases hEq
        exact ⟨.bool true, _, tail, rfl, rfl, rfl, rfl⟩
      split at h
      · obtain ⟨tail, rfl, hEq⟩ := scanWord_sound (by simp) h
        cases hEq
        exact ⟨.bool false, _, tail, rfl, rfl, rfl, rfl⟩
      · obtain ⟨⟨spelling, rest'⟩, hScan, hEq⟩ := map_eq_some_iff.mp h
        obtain ⟨body, tail, rfl, hNum, rfl, rfl⟩ := scanNumber_sound hScan
        cases hEq
        exact ⟨.num body, body, tail, rfl, ⟨rfl, hNum⟩, rfl, rfl⟩

def PlainNumber : Tree → Prop
  | .num spelling => ∃ n, integer spelling = some n
  | _ => True

theorem scanScalar_number (h : NumberSpelling spelling)
    (hn : integer spelling = some n) (hStop : NumberStop tail) :
    scanScalar (utf8 (spelling ++ tail)) = some (.number (utf8 spelling), utf8 tail) := by
  have hScan := scanNumber_plain h hn hStop
  obtain ⟨c, rest, rfl⟩ : ∃ c rest, spelling = c :: rest := by
    cases spelling with
    | nil => cases hn
    | cons c rest => exact ⟨c, rest, rfl⟩
  have hc := integer_digits hn c (by simp)
  have hAscii : c.toNat < 128 := by
    rcases hc with rfl | hc
    · decide
    · have := (isDigit_iff c).mp hc
      omega
  have hne (x : Char) (hx : x = '"' ∨ x = 'n' ∨ x = 't' ∨ x = 'f') : c.toUInt8 ≠ x.toUInt8 := by
    intro hb
    have hx' : x.toNat < 128 := by rcases hx with rfl | rfl | rfl | rfl <;> decide
    rw [toUInt8_inj hAscii hb hx'] at hc
    rcases hx with rfl | rfl | rfl | rfl <;> exact absurd hc (by decide)
  rw [cons_append, utf8_cons, encodeChar_ascii hAscii, singleton_append] at hScan ⊢
  rw [scanScalar, if_neg (hne '"' (by simp)), if_neg (hne 'n' (by simp)), if_neg (hne 't' (by simp)),
    if_neg (hne 'f' (by simp)), hScan]
  rfl

theorem scanScalar_spells {tree : Tree} {body : List Char}
    (h : Spells tree body) (hToken : TokenOf token tree) (hPlain : PlainNumber tree)
    (hStop : NumberStop tail) : scanScalar (utf8 (body ++ tail)) = some (token, utf8 tail) := by
  cases tree with
  | null =>
    subst h
    cases token <;> cases hToken
    rfl
  | bool b =>
    cases token <;> cases hToken
    cases b <;> (rw [Spells] at h; subst h; rfl)
  | num spelling =>
    obtain ⟨n, hn⟩ := hPlain
    obtain ⟨rfl, hNum⟩ := h
    cases token with
    | number bytes => rw [scanScalar_number hNum hn hStop, hToken]
    | _ => cases hToken
  | str items =>
    obtain ⟨inner, rfl, hItems⟩ := h
    cases token with
    | string s =>
      have hScan := scanString_items hItems (utf8 tail)
      simp only [cons_append, append_assoc, utf8_cons, utf8_append,
        encodeChar_ascii (by decide : '"'.toNat < 128), nil_append]
      rw [scanScalar, hScan, hToken]
      rfl
    | _ => cases hToken
  | arr elements | obj members => cases token <;> cases hToken

end Json
