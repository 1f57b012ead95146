import Proctor.Json.Decoder

/-! # Lexing UTF-8 texts

What the scanners of the token reader do on the octets of a text, in terms of its characters: each
scanner takes exactly what the grammar derives, and on success leaves the octets of the remaining
characters. -/
namespace Json

open List Option
open Char (isDigit ofNat toNat)

section Spans

variable {p : UInt8 → Bool} {q : Char → Bool}

section

variable (hAscii : ∀ c : Char, c.toNat < 128 → p c.toUInt8 = q c)
  (hHigh : ∀ b : UInt8, 128 ≤ b.toNat → p b = false) (hChar : ∀ c : Char, 128 ≤ c.toNat → q c = false)
  (text : List Char)
include hAscii hHigh hChar

theorem utf8_dropWhile : (utf8 text).dropWhile p = utf8 (text.dropWhile q) := by
  induction text with
  | nil => rfl
  | cons c text ih =>
    by_cases hc : c.toNat < 128
    · rw [utf8_cons, encodeChar_ascii hc, singleton_append, dropWhile_cons,
        dropWhile_cons, hAscii c hc]
      split
      · exact ih
      · rw [utf8_cons, encodeChar_ascii hc, singleton_append]
    · obtain ⟨b, bytes, hBytes, hb⟩ := encodeChar_high hc
      rw [dropWhile_cons, if_neg (by simp [hChar c (by omega)]), utf8_cons, hBytes, cons_append,
        dropWhile_cons, if_neg (by simp [hHigh b hb])]

theorem utf8_takeWhile : (utf8 text).takeWhile p = utf8 (text.takeWhile q) := by
  have hDrop := utf8_dropWhile hAscii hHigh hChar text
  have hByte := takeWhile_append_dropWhile (p := p) (l := utf8 text)
  have hText := congrArg utf8 (takeWhile_append_dropWhile (p := q) (l := text))
  rw [utf8_append, ← hDrop] at hText
  exact append_cancel_right (hByte.trans hText.symm)

end

end Spans

variable {c x a d : Char} {b p q r s : UInt8} {u n : Nat} {result : List Literal × Bytes}
   {text body : List Char}

theorem toUInt8_beq (hc : c.toNat < 128) (hx : x.toNat < 128) :
    (c.toUInt8 == x.toUInt8) = (c == x) := by
  by_cases h : c = x
  · simp [h]
  · have : c.toUInt8 ≠ x.toUInt8 := fun hByte => h (toUInt8_inj hc hByte hx)
    simp [h, this]

theorem byte_ne_ascii (hb : 128 ≤ b.toNat) (hx : x.toNat < 128) : b ≠ x.toUInt8 := by
  rintro rfl
  rw [toNat_toUInt8 hx] at hb
  omega

theorem skipSpace (text : List Char) :
    (utf8 text).dropWhile isSpaceByte = utf8 (text.dropWhile isWhitespace) := by
  apply utf8_dropWhile
  · intro c hc
    simp only [isSpaceByte, isWhitespace, toUInt8_beq hc (by decide : toNat ' ' < 128),
      toUInt8_beq hc (by decide : toNat '\t' < 128),
      toUInt8_beq hc (by decide : toNat '\n' < 128),
      toUInt8_beq hc (by decide : toNat '\r' < 128)]
  · intro b hb
    simp [isSpaceByte, byte_ne_ascii hb (by decide : toNat ' ' < 128),
      byte_ne_ascii hb (by decide : toNat '\t' < 128),
      byte_ne_ascii hb (by decide : toNat '\n' < 128),
      byte_ne_ascii hb (by decide : toNat '\r' < 128)]
  · intro c hc
    have hne (x : Char) (hx : x.toNat < 128) : c ≠ x := by rintro rfl; omega
    simp [isWhitespace, hne ' ' (by decide), hne '\t' (by decide), hne '\n' (by decide),
      hne '\r' (by decide)]

theorem isDigit_iff (c : Char) : c.isDigit ↔ 48 ≤ c.toNat ∧ c.toNat ≤ 57 := by
  simp only [isDigit, Bool.and_eq_true, decide_eq_true_eq, UInt32.le_iff_toNat_le, ge_iff_le]
  exact Iff.rfl

theorem isDigitByte_iff (b : UInt8) : isDigitByte b ↔ 48 ≤ b.toNat ∧ b.toNat ≤ 57 := by
  simp only [isDigitByte, Bool.and_eq_true, decide_eq_true_eq, UInt8.le_iff_toNat_le]
  exact Iff.rfl

theorem isDigitByte_toUInt8 (hc : c.toNat < 128) : isDigitByte c.toUInt8 = c.isDigit := by
  rw [Bool.eq_iff_iff, isDigitByte_iff, isDigit_iff, toNat_toUInt8 hc]

theorem spanDigits (text : List Char) :
    (utf8 text).takeWhile isDigitByte = utf8 (text.takeWhile isDigit) ∧
      (utf8 text).dropWhile isDigitByte = utf8 (text.dropWhile isDigit) := by
  have hHigh : ∀ b : UInt8, 128 ≤ b.toNat → isDigitByte b = false := by
    intro b hb
    rw [Bool.eq_false_iff, Ne, isDigitByte_iff]
    omega
  have hChar : ∀ c : Char, 128 ≤ c.toNat → c.isDigit = false := by
    intro c hc
    rw [Bool.eq_false_iff, Ne, isDigit_iff]
    omega
  exact ⟨utf8_takeWhile (fun _ => isDigitByte_toUInt8) hHigh hChar text,
    utf8_dropWhile (fun _ => isDigitByte_toUInt8) hHigh hChar text⟩

theorem Ws.of_takeWhile (text : List Char) : Ws (text.takeWhile isWhitespace) := by
  intro c hc
  exact (all_eq_true.mp all_takeWhile) c hc

def itemLiterals : Item → List Literal
  | .raw c => (String.utf8EncodeChar c).map .byte
  | .short e => [.byte e.scalar.toUInt8]
  | .unit u => [.unit u]

def literals (items : List Item) : List Literal := items.flatMap itemLiterals

def prepend (front : List Literal) (scanned : List Literal × Bytes) : List Literal × Bytes :=
  (front ++ scanned.1, scanned.2)

theorem scanString_raw (hQuote : b ≠ '"'.toUInt8) (hSlash : b ≠ '\\'.toUInt8)
    (hCtl : ¬ b < 0x20) (rest : Bytes) :
    scanString (b :: rest) = (scanString rest).map (prepend [.byte b]) := by
  rw [scanString.eq_def]
  simp only [hQuote, hSlash, hCtl, if_false]
  rfl

theorem scanString_high {bytes : Bytes} (h : ∀ b ∈ bytes, 128 ≤ b.toNat) (rest : Bytes) :
    scanString (bytes ++ rest) = (scanString rest).map (prepend (bytes.map .byte)) := by
  induction bytes with
  | nil => rw [nil_append]; cases scanString rest <;> rfl
  | cons b bytes ih =>
    have hb := h b (by simp)
    have hCtl : ¬ b < 0x20 := by
      change ¬ b.toNat < 32
      omega
    rw [cons_append, scanString_raw (byte_ne_ascii hb (by decide)) (byte_ne_ascii hb (by decide))
      hCtl, ih fun d hd => h d (by simp [hd]), Option.map_map]
    rfl

theorem escapeByte_letter (e : Escape) : escapeByte e.letter.toUInt8 = some e.scalar.toUInt8 := by
  cases e <;> decide

theorem scanString_short (e : Escape) (rest : Bytes) :
    scanString ('\\'.toUInt8 :: e.letter.toUInt8 :: rest) =
      (scanString rest).map (prepend [.byte e.scalar.toUInt8]) := by
  have hLetter : e.letter.toUInt8 ≠ 'u'.toUInt8 := by cases e <;> decide
  have hQuote : '\\'.toUInt8 ≠ '"'.toUInt8 := by decide
  rw [scanString.eq_def]
  simp only [hQuote, hLetter, if_true, if_false, escapeByte_letter]
  rfl

theorem scanString_unit (h : hexUnitBytes p q r s = some u) (rest : Bytes) :
    scanString ('\\'.toUInt8 :: 'u'.toUInt8 :: p :: q :: r :: s :: rest) =
      (scanString rest).map (prepend [.unit u]) := by
  have hQuote : '\\'.toUInt8 ≠ '"'.toUInt8 := by decide
  rw [scanString.eq_def]
  simp only [hQuote, if_true, if_false, h]
  rfl

theorem scanString_slash_eq_some {rest : Bytes} (h : scanString ('\\'.toUInt8 :: rest) = some result) :
    (∃ e : Escape, ∃ more, rest = e.letter.toUInt8 :: more) ∨
      ∃ p q r s u more, rest = 'u'.toUInt8 :: p :: q :: r :: s :: more ∧
        hexUnitBytes p q r s = some u := by
  have hQuote : '\\'.toUInt8 ≠ '"'.toUInt8 := by decide
  rw [scanString.eq_def] at h
  simp only [hQuote, if_true, if_false] at h
  split at h
  · cases h
  rename_i letter rest
  split at h
  · rename_i hLetter
    subst hLetter
    split at h
    · rename_i p q r s rest
      split at h
      · cases h
      · rename_i u hUnit
        exact .inr ⟨p, q, r, s, u, rest, rfl, hUnit⟩
    · cases h
  · split at h
    · cases h
    rename_i value hValue
    left
    unfold escapeByte at hValue
    split_ifs at hValue with h1 h2 h3 h4 h5 h6 h7 h8
    · exact ⟨.quote, rest, by rw [h1]; rfl⟩
    · exact ⟨.backslash, rest, by rw [h2]; rfl⟩
    · exact ⟨.slash, rest, by rw [h3]; rfl⟩
    · exact ⟨.backspace, rest, by rw [h4]; rfl⟩
    · exact ⟨.formFeed, rest, by rw [h5]; rfl⟩
    · exact ⟨.newline, rest, by rw [h6]; rfl⟩
    · exact ⟨.carriageReturn, rest, by rw [h7]; rfl⟩
    · exact ⟨.tab, rest, by rw [h8]; rfl⟩

theorem ofNat_toNat_toUInt8 (hc : c.toNat < 128) : ofNat c.toUInt8.toNat = c := by
  rw [toNat_toUInt8 hc, Char.ofNat_toNat]

theorem hexDigit_ascii (h : hexDigit c = some n) : c.toNat < 128 := by
  unfold hexDigit at h
  have h9 : '9'.toNat = 57 := rfl
  have hf : 'f'.toNat = 102 := rfl
  have hF : 'F'.toNat = 70 := rfl
  split_ifs at h with h1 h2 h3 <;> simp only [Bool.and_eq_true, decide_eq_true_eq] at * <;> omega

theorem hexDigitByte_ascii (h : hexDigitByte b = some n) : b.toNat < 128 := by
  have hChar := hexDigit_ascii h
  have hb := b.toNat_lt
  have hValid : b.toNat.isValidChar := .inl (by omega)
  have hNat : (ofNat b.toNat).toNat = b.toNat := by
    rw [ofNat, dif_pos hValid]
    rfl
  omega

theorem hexUnitBytes_toUInt8 {b : Char} (h : hexUnit a b c d = some u) :
    hexUnitBytes a.toUInt8 b.toUInt8 c.toUInt8 d.toUInt8 = some u := by
  have hDigit {x : Char} {n : Nat} (hx : hexDigit x = some n) : hexDigitByte x.toUInt8 = some n := by
    rw [hexDigitByte, ofNat_toNat_toUInt8 (hexDigit_ascii hx), hx]
  simp only [hexUnit, bind_eq_bind, bind_eq_some_iff] at h
  obtain ⟨i, hi, j, hj, k, hk, l, hl, hu⟩ := h
  simp only [hexUnitBytes, hDigit hi, hDigit hj, hDigit hk, hDigit hl]
  exact hu

theorem hexUnit_ascii {b : Char} (h : hexUnit a b c d = some u) :
    a.toNat < 128 ∧ b.toNat < 128 ∧ c.toNat < 128 ∧ d.toNat < 128 := by
  simp only [hexUnit, bind_eq_bind, bind_eq_some_iff] at h
  obtain ⟨i, hi, j, hj, k, hk, l, hl, -⟩ := h
  exact ⟨hexDigit_ascii hi, hexDigit_ascii hj, hexDigit_ascii hk, hexDigit_ascii hl⟩

theorem hexUnitBytes_text {rest : Bytes}
    (hText : utf8 text = p :: q :: r :: s :: rest) (h : hexUnitBytes p q r s = some u) :
    ∃ a b c d tail, text = a :: b :: c :: d :: tail ∧ hexUnit a b c d = some u ∧ utf8 tail = rest := by
  simp only [hexUnitBytes, bind_eq_bind, bind_eq_some_iff] at h
  obtain ⟨i, hi, j, hj, k, hk, l, hl, hu⟩ := h
  obtain ⟨a, text₁, rfl, ha, rfl, hText₁⟩ := utf8_eq_cons hText (hexDigitByte_ascii hi)
  obtain ⟨b, text₂, rfl, hb, rfl, hText₂⟩ := utf8_eq_cons hText₁ (hexDigitByte_ascii hj)
  obtain ⟨c, text₃, rfl, hc, rfl, hText₃⟩ := utf8_eq_cons hText₂ (hexDigitByte_ascii hk)
  obtain ⟨d, text₄, rfl, hd, rfl, hText₄⟩ := utf8_eq_cons hText₃ (hexDigitByte_ascii hl)
  rw [hexDigitByte, ofNat_toNat_toUInt8 ‹_›] at hi hj hk hl
  refine ⟨a, b, c, d, text₄, rfl, ?_, hText₄⟩
  simp only [hexUnit, hi, hj, hk, hl]
  exact hu

theorem scanString_item {item : Item} (h : ItemSpells item body) (rest : Bytes) :
    scanString (utf8 body ++ rest) = (scanString rest).map (prepend (itemLiterals item)) := by
  cases item with
  | raw c =>
    obtain ⟨rfl, hLow, hQuote, hSlash⟩ := h
    by_cases hc : c.toNat < 128
    · have hCtl : ¬ c.toUInt8 < 0x20 := by
        rw [UInt8.lt_iff_toNat_lt, toNat_toUInt8 hc]
        change ¬ c.toNat < 32
        omega
      simp only [utf8_cons, utf8_nil, encodeChar_ascii hc, itemLiterals, append_nil,
        singleton_append]
      exact scanString_raw (fun hb => hQuote (toUInt8_inj hc hb (by decide)))
        (fun hb => hSlash (toUInt8_inj hc hb (by decide))) hCtl rest
    · simp only [utf8_cons, utf8_nil, itemLiterals, append_nil]
      exact scanString_high (encodeChar_not_ascii (by omega)) rest
  | short e =>
    subst h
    have hLetter : e.letter.toNat < 128 := by cases e <;> decide
    simp only [utf8_cons, utf8_nil, encodeChar_ascii hLetter,
      encodeChar_ascii (by decide : '\\'.toNat < 128)]
    exact scanString_short e rest
  | unit u =>
    obtain ⟨a, b, c, d, rfl, hUnit⟩ := h
    obtain ⟨ha, hb, hc, hd⟩ := hexUnit_ascii hUnit
    simp only [utf8_cons, utf8_nil, encodeChar_ascii ha, encodeChar_ascii hb, encodeChar_ascii hc,
      encodeChar_ascii hd, encodeChar_ascii (by decide : '\\'.toNat < 128),
      encodeChar_ascii (by decide : 'u'.toNat < 128)]
    exact scanString_unit (hexUnitBytes_toUInt8 hUnit) rest

theorem scanString_items {items : List Item} (h : ItemsSpell items body) (rest : Bytes) :
    scanString (utf8 body ++ '"'.toUInt8 :: rest) = some (literals items, rest) := by
  induction items generalizing body with
  | nil =>
    subst h
    exact scanString_quote rest
  | cons item items ih =>
    obtain ⟨a, b, rfl, hItem, hItems⟩ := h
    rw [utf8_append, append_assoc, scanString_item hItem, ih hItems]
    rfl

theorem scanString_text_cases (h : scanString (utf8 text) = some result) :
    (∃ tail, text = '"' :: tail) ∨ ∃ item body tail, text = body ++ tail ∧ ItemSpells item body ∧
      body ≠ [] := by
  cases text with
  | nil => cases h
  | cons c tail =>
    by_cases hQuote : c = '"'
    · exact .inl ⟨tail, by rw [hQuote]⟩
    right
    by_cases hSlash : c = '\\'
    · subst hSlash
      rcases scanString_slash_eq_some h with ⟨e, more, hMore⟩ | ⟨p, q, r, s, u, more, hMore, hUnit⟩
      · have hLetter : e.letter.toNat < 128 := by cases e <;> decide
        obtain ⟨tail', rfl, -⟩ := utf8_eq_cons_ascii hMore rfl hLetter
        exact ⟨.short e, ['\\', e.letter], tail', rfl, rfl, by simp⟩
      · obtain ⟨tail', rfl, hTail⟩ := utf8_eq_cons_ascii hMore rfl (by decide)
        obtain ⟨a, b, c, d, tail'', rfl, hHex, -⟩ := hexUnitBytes_text hTail hUnit
        exact ⟨.unit u, ['\\', 'u', a, b, c, d], tail'', rfl, ⟨a, b, c, d, rfl, hHex⟩, by simp⟩
    · refine ⟨.raw c, [c], tail, rfl, ⟨rfl, ?_, hQuote, hSlash⟩, by simp⟩
      by_contra hLow
      have hc : c.toNat < 128 := by omega
      rw [utf8_cons, encodeChar_ascii hc, singleton_append, scanString.eq_def] at h
      have hCtl : c.toUInt8 < 0x20 := by
        rw [UInt8.lt_iff_toNat_lt, toNat_toUInt8 hc]
        change c.toNat < 32
        omega
      have hQuote' : c.toUInt8 ≠ '"'.toUInt8 := fun hb => hQuote (toUInt8_inj hc hb (by decide))
      have hSlash' : c.toUInt8 ≠ '\\'.toUInt8 := fun hb => hSlash (toUInt8_inj hc hb (by decide))
      simp only [hQuote', hSlash', hCtl, if_true, if_false] at h
      cases h

theorem scanString_sound (n : Nat) : ∀ (text : List Char) (result : List Literal × Bytes),
    text.length = n → scanString (utf8 text) = some result →
    ∃ items body tail, text = body ++ '"' :: tail ∧ ItemsSpell items body ∧
      result = (literals items, utf8 tail) := by
  induction n using Nat.strongRecOn with
  | ind n ih =>
    intro text result hLen h
    rcases scanString_text_cases h with ⟨tail, rfl⟩ | ⟨item, body, tail, rfl, hItem, hne⟩
    · rw [utf8_cons, encodeChar_ascii (by decide), singleton_append, scanString_quote] at h
      exact ⟨[], [], tail, rfl, rfl, (Option.some.inj h).symm⟩
    rw [utf8_append, scanString_item hItem] at h
    obtain ⟨scanned, hScanned, rfl⟩ := map_eq_some_iff.mp h
    have hPos := length_pos_iff.mpr hne
    rw [length_append] at hLen
    obtain ⟨items, body', tail', rfl, hItems, rfl⟩ :=
      ih tail.length (by omega) tail scanned rfl hScanned
    exact ⟨item :: items, body ++ body', tail', by simp, ⟨_, _, rfl, hItem, hItems⟩, rfl⟩

theorem unquote_bytes (bytes : Bytes) (rest : List Literal) :
    unquote (bytes.map .byte ++ rest) = bytes ++ unquote rest := by
  induction bytes with
  | nil => rfl
  | cons b bytes ih => simp [unquote, ih]

theorem unquote_literals (items : List Item) : ∀ s, scalars items = some s →
    unquote (literals items) = utf8 s := by
  fun_induction scalars items with
  | case1 => rintro s ⟨⟩; rfl
  | case2 c items ih =>
    intro s h
    obtain ⟨s, hs, rfl⟩ := map_eq_some_iff.mp h
    rw [utf8_cons, ← ih s hs, ← unquote_bytes]
    rfl
  | case3 e items ih =>
    intro s h
    obtain ⟨s, hs, rfl⟩ := map_eq_some_iff.mp h
    have hScalar : e.scalar.toNat < 128 := by cases e <;> decide
    rw [utf8_cons, encodeChar_ascii hScalar, ← ih s hs]
    rfl
  | case4 u hHigh low items hLow ih =>
    intro s h
    obtain ⟨s, hs, rfl⟩ := map_eq_some_iff.mp h
    rw [utf8_cons, ← ih s hs]
    change unquote (.unit u :: .unit low :: literals items) = _
    rw [unquote, if_pos (by rw [hHigh, hLow]; rfl)]
  | case5 | case6 | case7 => intro _ h; cases h
  | case8 u items hHigh hLow ih =>
    intro s h
    obtain ⟨s, hs, rfl⟩ := map_eq_some_iff.mp h
    have hUnit : unitBytes u = String.utf8EncodeChar (ofNat u) := by
      rw [unitBytes, if_neg (by simp [hHigh, hLow])]
    rw [utf8_cons, ← ih s hs, ← hUnit]
    change unquote (.unit u :: literals items) = _
    rw [unquote.eq_def]
    cases hRest : literals items with
    | nil => rfl
    | cons literal rest =>
      cases literal with
      | byte b => rfl
      | unit low => simp [hHigh]

end Json
