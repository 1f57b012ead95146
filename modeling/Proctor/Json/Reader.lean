import Proctor.Json.Tokens

/-! # One call of the token reader

`token_sound` and `token_lead` say that a call passes over whitespace and at most one separator and
then reads what `NextStep` allows. `NextStep` has one constructor for each way the reader can move. -/
namespace Json

open List

/-- What a call may pass over before its token, and the token state after it. -/
inductive Lead : TokenState → List Char → TokenState → Prop
  | space {s : TokenState} {w : List Char} : Ws w → Lead s w s
  | colon {w w' : List Char} : Ws w → Ws w' → Lead .objectColon (w ++ ':' :: w') .objectValue
  | element {w w' : List Char} : Ws w → Ws w' → Lead .arrayComma (w ++ ',' :: w') .arrayValue
  | member {w w' : List Char} : Ws w → Ws w' → Lead .objectComma (w ++ ',' :: w') .objectKey

def Trimmed (text : List Char) : Prop := ∀ c, text.head? = some c → isWhitespace c = false

inductive NextStep (s : TokenState) (stack : List TokenState) :
    List Char → Option Token → Decoder → Prop
  | openArray {tail : List Char} : tokenValueAllowed s = true →
      NextStep s stack ('[' :: tail) (some (.delim '[')) ⟨utf8 tail, .arrayStart, s :: stack⟩
  | closeArray {tail : List Char} {outer : TokenState} {below : List TokenState} :
      (s = .arrayStart ∨ s = .arrayComma) → stack = outer :: below →
      NextStep s stack (']' :: tail) (some (.delim ']')) ⟨utf8 tail, tokenValueEnd outer, below⟩
  | openObject {tail : List Char} : tokenValueAllowed s = true →
      NextStep s stack ('\x7b' :: tail) (some (.delim '\x7b')) ⟨utf8 tail, .objectStart, s :: stack⟩
  | closeObject {tail : List Char} {outer : TokenState} {below : List TokenState} :
      (s = .objectStart ∨ s = .objectComma) → stack = outer :: below →
      NextStep s stack ('\x7d' :: tail) (some (.delim '\x7d')) ⟨utf8 tail, tokenValueEnd outer, below⟩
  | colon {tail : List Char} : s = .objectColon →
      NextStep s stack (':' :: tail) none ⟨utf8 tail, .objectValue, stack⟩
  | elementComma {tail : List Char} : s = .arrayComma →
      NextStep s stack (',' :: tail) none ⟨utf8 tail, .arrayValue, stack⟩
  | memberComma {tail : List Char} : s = .objectComma →
      NextStep s stack (',' :: tail) none ⟨utf8 tail, .objectKey, stack⟩
  | key {items : List Item} {body tail : List Char} : (s = .objectStart ∨ s = .objectKey) →
      StringSpells items body →
      NextStep s stack (body ++ tail) (some (.string (unquote (literals items))))
        ⟨utf8 tail, .objectColon, stack⟩
  | scalar {tree : Tree} {body tail : List Char} {token : Token} : tokenValueAllowed s = true →
      Spells tree body → TokenOf token tree →
      NextStep s stack (body ++ tail) (some token) ⟨utf8 tail, tokenValueEnd s, stack⟩

variable {w tail body : List Char}

theorem dropWhile_ws (hw : Ws w) (text : List Char) :
    (w ++ text).dropWhile isWhitespace = text.dropWhile isWhitespace :=
  dropWhile_append_of_pos hw

variable {text : List Char}

theorem Trimmed.dropWhile (h : Trimmed text) : text.dropWhile isWhitespace = text := by
  cases text with
  | nil => rfl
  | cons c text => rw [dropWhile_cons, if_neg (by simp [h c rfl])]

theorem trimmed_dropWhile (text : List Char) : Trimmed (text.dropWhile isWhitespace) := by
  intro c hc
  have hHead := head?_dropWhile_not isWhitespace text
  rw [hc] at hHead
  simpa using hHead

theorem next_ws (hw : Ws w) (text : List Char) (s : TokenState) (stack : List TokenState) :
    Decoder.next ⟨utf8 (w ++ text), s, stack⟩ = Decoder.next ⟨utf8 text, s, stack⟩ := by
  simp only [Decoder.next, skipSpace, dropWhile_ws hw]

variable {s : TokenState} {stack : List TokenState} {d : Decoder}

theorem next_sound {token : Option Token} (hTrimmed : Trimmed text)
    (h : Decoder.next ⟨utf8 text, s, stack⟩ = .ok (token, d)) : NextStep s stack text token d := by
  rw [Decoder.next] at h
  simp only [skipSpace, hTrimmed.dropWhile] at h
  cases hText : utf8 text with
  | nil => rw [hText] at h; cases h
  | cons b rest =>
    rw [hText] at h
    dsimp only at h
    split at h
    next hb =>
      obtain ⟨tail, rfl, rfl⟩ := utf8_eq_cons_ascii hText hb (by decide)
      split at h
      · cases h; exact .openArray ‹_›
      · cases h
    split at h
    next hb =>
      obtain ⟨tail, rfl, rfl⟩ := utf8_eq_cons_ascii hText hb (by decide)
      split at h
      · cases h; exact .closeArray (.inl rfl) rfl
      · cases h; exact .closeArray (.inr rfl) rfl
      · cases h
    split at h
    next hb =>
      obtain ⟨tail, rfl, rfl⟩ := utf8_eq_cons_ascii hText hb (by decide)
      split at h
      · cases h; exact .openObject ‹_›
      · cases h
    split at h
    next hb =>
      obtain ⟨tail, rfl, rfl⟩ := utf8_eq_cons_ascii hText hb (by decide)
      split at h
      · cases h; exact .closeObject (.inl rfl) rfl
      · cases h; exact .closeObject (.inr rfl) rfl
      · cases h
    split at h
    next hb =>
      obtain ⟨tail, rfl, rfl⟩ := utf8_eq_cons_ascii hText hb (by decide)
      split at h
      · cases h; exact .colon ‹_›
      · cases h
    split at h
    next hb =>
      obtain ⟨tail, rfl, rfl⟩ := utf8_eq_cons_ascii hText hb (by decide)
      split at h
      · cases h; exact .elementComma ‹_›
      split at h
      · cases h; exact .memberComma ‹_›
      · cases h
    split at h
    · rename_i hb
      simp only [Bool.and_eq_true, Bool.or_eq_true, decide_eq_true_eq] at hb
      obtain ⟨tail, rfl, rfl⟩ := utf8_eq_cons_ascii hText hb.1 (by decide)
      split at h
      · cases h
      rename_i scanned rest' hScan
      obtain ⟨items, body, tail', rfl, hItems, hEq⟩ := scanString_sound _ tail _ rfl hScan
      cases hEq
      cases h
      have hKey : NextStep s stack (('"' :: body ++ ['"']) ++ tail')
          (some (.string (unquote (literals items)))) ⟨utf8 tail', .objectColon, stack⟩ :=
        .key hb.2 ⟨body, rfl, hItems⟩
      simpa using hKey
    split at h
    · rename_i hAllow
      split at h
      · cases h
      rename_i token' rest' hScan
      rw [← hText] at hScan
      obtain ⟨tree, body, tail, rfl, hTree, hToken, rfl⟩ := scanScalar_sound hScan
      cases h
      exact .scalar hAllow hTree hToken
    · cases h

variable {token : Token}

theorem token_sound (h : Decoder.token ⟨utf8 text, s, stack⟩ = .ok (token, d)) :
    ∃ lead s' tail, text = lead ++ tail ∧ Lead s lead s' ∧ Trimmed tail ∧
      NextStep s' stack tail (some token) d := by
  obtain ⟨w, body, rfl, hw, hBody⟩ : ∃ w body, text = w ++ body ∧ Ws w ∧ Trimmed body :=
    ⟨_, _, takeWhile_append_dropWhile.symm, Ws.of_takeWhile text, trimmed_dropWhile text⟩
  rw [Decoder.token, next_ws hw] at h
  split at h
  · cases h
  · rename_i token' d' hNext
    cases h
    exact ⟨w, s, body, rfl, .space hw, hBody, next_sound hBody hNext⟩
  rename_i d' hNext
  -- The first round took a separator: the second one starts at its own whitespace.
  have hStep := next_sound hBody hNext
  obtain ⟨sep, s', tail, rfl, rfl, hLead⟩ : ∃ sep s' tail, body = sep :: tail ∧
      d' = ⟨utf8 tail, s', stack⟩ ∧ ∀ w', Ws w' → Lead s (w ++ sep :: w') s' := by
    cases hStep with
    | colon hs => subst hs; exact ⟨_, _, _, rfl, rfl, fun _ hw' => .colon hw hw'⟩
    | elementComma hs => subst hs; exact ⟨_, _, _, rfl, rfl, fun _ hw' => .element hw hw'⟩
    | memberComma hs => subst hs; exact ⟨_, _, _, rfl, rfl, fun _ hw' => .member hw hw'⟩
  obtain ⟨w', body', rfl, hw', hBody'⟩ : ∃ w' body', tail = w' ++ body' ∧ Ws w' ∧ Trimmed body' :=
    ⟨_, _, takeWhile_append_dropWhile.symm, Ws.of_takeWhile tail, trimmed_dropWhile tail⟩
  rw [next_ws hw'] at h
  split at h
  · cases h
  · rename_i hNext'
    cases h
    exact ⟨w ++ sep :: w', s', body', by simp, hLead w' hw', hBody', next_sound hBody' hNext'⟩
  · cases h

theorem token_of_separator {d d₁ d₂ : Decoder} (h₁ : d.next = .ok (none, d₁))
    (h₂ : d₁.next = .ok (some token, d₂)) : d.token = .ok (token, d₂) := by
  simp [Decoder.token, h₁, h₂]

theorem token_lead {s s' : TokenState} {lead text : List Char} (hLead : Lead s lead s')
    (h : Decoder.next ⟨utf8 text, s', stack⟩ = .ok (some token, d)) :
    Decoder.token ⟨utf8 (lead ++ text), s, stack⟩ = .ok (token, d) := by
  cases hLead with
  | space hw => rw [Decoder.token, next_ws hw, h]
  | colon hw hw' | element hw hw' | member hw hw' =>
    rw [← next_ws hw'] at h
    refine token_of_separator ?_ h
    rw [append_assoc, next_ws hw]
    rfl

theorem spells_head {tree : Tree} (h : Spells tree text) :
    ∃ c tail, text = c :: tail ∧ isWhitespace c = false ∧ c ≠ ']' ∧ c ≠ '\x7d' ∧ c ≠ ',' ∧ c ≠ ':' := by
  cases tree with
  | null => exact ⟨'n', _, h, by decide⟩
  | bool b => cases b <;> exact ⟨_, _, h, by decide⟩
  | num spelling =>
    obtain ⟨rfl, sign, int, frac, exp, rfl, hSign, hInt, -⟩ := h
    rcases hSign with rfl | rfl
    · obtain ⟨d, ds, rfl, hd⟩ := hInt.head
      have hne (x : Char) (hx : x.isDigit = false) : d ≠ x := by
        rintro rfl
        rw [hx] at hd
        cases hd
      exact ⟨d, _, rfl, by simp [isWhitespace, hne ' ' rfl, hne '\t' rfl, hne '\n' rfl, hne '\r' rfl],
        hne _ rfl, hne _ rfl, hne _ rfl, hne _ rfl⟩
    · exact ⟨'-', _, rfl, by decide⟩
  | str items =>
    obtain ⟨body, rfl, -⟩ := h
    exact ⟨'"', _, rfl, by decide⟩
  | arr elements =>
    obtain ⟨body, rfl, -⟩ := h
    exact ⟨'[', _, rfl, by decide⟩
  | obj members =>
    obtain ⟨body, rfl, -⟩ := h
    exact ⟨'\x7b', _, rfl, by decide⟩

theorem more_text {c : Char} (hw : Ws w) (hc : isWhitespace c = false)
    (s : TokenState) (stack : List TokenState) :
    Decoder.more ⟨utf8 (w ++ c :: tail), s, stack⟩ = (c != ']' && c != '\x7d') := by
  have hTrimmed : Trimmed (c :: tail) := by rintro d ⟨⟩; exact hc
  rw [Decoder.more]
  simp only [skipSpace, dropWhile_ws hw, hTrimmed.dropWhile]
  by_cases hAscii : c.toNat < 128
  · simp only [utf8_cons, encodeChar_ascii hAscii, singleton_append, bne,
      toUInt8_beq hAscii (by decide : Char.toNat ']' < 128),
      toUInt8_beq hAscii (by decide : Char.toNat '\x7d' < 128)]
  have hne (x : Char) (hx : x.toNat < 128) : c ≠ x := by rintro rfl; omega
  obtain ⟨b, bytes, hBytes, hb⟩ := encodeChar_high hAscii
  have hByte (x : Char) (hx : x.toNat < 128) : (b != x.toUInt8) :=
    bne_iff_ne.mpr (byte_ne_ascii hb hx)
  have hChar (x : Char) (hx : x.toNat < 128) : (c != x) := bne_iff_ne.mpr (hne x hx)
  simp only [utf8_cons, hBytes, cons_append, hByte ']' (by decide), hByte '\x7d' (by decide),
    hChar ']' (by decide), hChar '\x7d' (by decide)]

theorem next_openArray (h : tokenValueAllowed s) (stack : List TokenState)
    (tail : List Char) : Decoder.next ⟨utf8 ('[' :: tail), s, stack⟩ =
      .ok (some (.delim '['), ⟨utf8 tail, .arrayStart, s :: stack⟩) := by
  cases s <;> first | rfl | cases h

theorem next_openObject (h : tokenValueAllowed s) (stack : List TokenState)
    (tail : List Char) : Decoder.next ⟨utf8 ('\x7b' :: tail), s, stack⟩ =
      .ok (some (.delim '\x7b'), ⟨utf8 tail, .objectStart, s :: stack⟩) := by
  cases s <;> first | rfl | cases h

theorem next_closeArray (h : s = .arrayStart ∨ s = .arrayComma) (outer : TokenState)
    (stack : List TokenState) (tail : List Char) :
    Decoder.next ⟨utf8 (']' :: tail), s, outer :: stack⟩ =
      .ok (some (.delim ']'), ⟨utf8 tail, tokenValueEnd outer, stack⟩) := by
  rcases h with rfl | rfl <;> rfl

theorem next_closeObject (h : s = .objectStart ∨ s = .objectComma)
    (outer : TokenState) (stack : List TokenState) (tail : List Char) :
    Decoder.next ⟨utf8 ('\x7d' :: tail), s, outer :: stack⟩ =
      .ok (some (.delim '\x7d'), ⟨utf8 tail, tokenValueEnd outer, stack⟩) := by
  rcases h with rfl | rfl <;> rfl

theorem next_key (hs : s = .objectStart ∨ s = .objectKey) {items : List Item} (h : StringSpells items body)
    (stack : List TokenState) (tail : List Char) : Decoder.next ⟨utf8 (body ++ tail), s, stack⟩ =
      .ok (some (.string (unquote (literals items))), ⟨utf8 tail, .objectColon, stack⟩) := by
  obtain ⟨inner, rfl, hItems⟩ := h
  have hScan := scanString_items hItems (utf8 tail)
  have hText : utf8 ('"' :: inner ++ ['"'] ++ tail) =
      '"'.toUInt8 :: (utf8 inner ++ '"'.toUInt8 :: utf8 tail) := by
    rw [utf8_append, utf8_enclosed (by decide) (by decide), cons_append, append_assoc]
    rfl
  have hSpace : ('"'.toUInt8 :: (utf8 inner ++ '"'.toUInt8 :: utf8 tail)).dropWhile isSpaceByte =
      '"'.toUInt8 :: (utf8 inner ++ '"'.toUInt8 :: utf8 tail) := rfl
  rw [hText, Decoder.next]
  simp only [hSpace]
  rcases hs with rfl | rfl <;>
    · rw [if_neg (by decide), if_neg (by decide), if_neg (by decide), if_neg (by decide),
        if_neg (by decide), if_neg (by decide), if_pos (by simp), hScan]

theorem next_scalar (hs : tokenValueAllowed s) {tree : Tree} (h : Spells tree body)
    (hToken : TokenOf token tree)
    (hPlain : PlainNumber tree) (hStop : NumberStop tail) (stack : List TokenState) :
    Decoder.next ⟨utf8 (body ++ tail), s, stack⟩ =
      .ok (some token, ⟨utf8 tail, tokenValueEnd s, stack⟩) := by
  have hScan := scanScalar_spells h hToken hPlain hStop
  obtain ⟨c, rest, rfl, hSpace, hClose, hBrace, hComma, hColon⟩ := spells_head h
  have hOpen : c ≠ '[' ∧ c ≠ '\x7b' := by
    cases tree with
    | null => cases h; decide
    | bool b => cases b <;> (cases h; decide)
    | num spelling =>
      obtain ⟨n, hn⟩ := hPlain
      obtain ⟨rfl, -⟩ := h
      rcases integer_digits hn c (by simp) with rfl | hc
      · decide
      · constructor <;> (rintro rfl; exact absurd hc (by decide))
    | str items =>
      obtain ⟨inner, hText, -⟩ := h
      obtain rfl := (List.cons.inj hText).1
      decide
    | arr elements | obj members => cases token <;> cases hToken
  have hTrimmed : Trimmed (c :: rest ++ tail) := by rintro d ⟨⟩; exact hSpace
  cases hText : utf8 (c :: rest ++ tail) with
  | nil => rw [hText] at hScan; cases hScan
  | cons b bytes =>
    have hByte {x : Char} (hx : x.toNat < 128) (hne : c ≠ x) : b ≠ x.toUInt8 := by
      rintro rfl
      obtain ⟨tail', hEq, -⟩ := utf8_eq_cons_ascii hText rfl hx
      exact hne (List.cons.inj hEq).1
    have hKey : s ≠ .objectStart ∧ s ≠ .objectKey := by
      cases s <;> first | decide | cases hs
    have hState : ¬ (b = '"'.toUInt8 && (s = .objectStart || s = .objectKey)) := by
      simp [hKey]
    have hDrop : (b :: bytes).dropWhile isSpaceByte = b :: bytes := by
      rw [← hText, skipSpace, hTrimmed.dropWhile]
    rw [Decoder.next]
    simp only [hDrop]
    rw [if_neg (hByte (by decide) hOpen.1), if_neg (hByte (by decide) hClose),
      if_neg (hByte (by decide) hOpen.2), if_neg (hByte (by decide) hBrace),
      if_neg (hByte (by decide) hColon), if_neg (hByte (by decide) hComma), if_neg hState, if_pos hs,
      ← hText, hScan]

theorem numberStop_of_mem {c : Char} (h : isWhitespace c = true ∨ c ∈ [',', ']', '\x7d'])
    (tail : List Char) : NumberStop (c :: tail) := by
  rintro d ⟨⟩
  simp only [isWhitespace, Bool.or_eq_true, beq_iff_eq, mem_cons, not_mem_nil, or_false] at h
  rcases h with (((rfl | rfl) | rfl) | rfl) | rfl | rfl | rfl <;> decide

theorem numberStop_of_ws (hw : Ws w) : NumberStop w := by
  cases w with
  | nil => intro c hc; cases hc
  | cons c w => exact numberStop_of_mem (.inl (hw c (by simp))) w

theorem numberStop_ws (hw : Ws w) {c : Char} (hc : c ∈ [',', ']', '\x7d'])
    (tail : List Char) : NumberStop (w ++ c :: tail) := by
  cases w with
  | nil => exact numberStop_of_mem (.inr hc) tail
  | cons d w => exact numberStop_of_mem (.inl (hw d (by simp))) _

theorem numberStop_left {α : Type} {item : α → List Char → Prop} {items : List α} {rest : List Char}
    (h : Left item false items rest) {close : Char} (hClose : close ∈ [']', '\x7d']) (tail : List Char) :
    NumberStop (rest ++ close :: tail) := by
  cases items with
  | nil => exact numberStop_ws h (mem_cons_of_mem _ hClose) tail
  | cons item items =>
    obtain ⟨w, rest', rfl, hw, -⟩ := left_next.mp h
    rw [append_assoc]
    exact numberStop_ws hw (by simp) _

end Json
