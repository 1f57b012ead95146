import Proctor.CanonicalJson.Encoding

/-! # The surrogate scan

On a text that the grammar derives, `validStringEscapes` is in a string exactly where the grammar
is, and it accepts a string exactly when its surrogate escapes are paired. -/
namespace Proctor.CanonicalJson

open Json List

theorem unicodeEscape_four (p q r s : UInt8) : unicodeEscape [p, q, r, s] = hexUnitBytes p q r s := by
  rw [unicodeEscape]
  simp only [List.take, foldlM_cons, foldlM_nil, hexUnitBytes]
  cases hexDigitByte p <;> cases hexDigitByte q <;> cases hexDigitByte r <;>
    cases hexDigitByte s <;> simp

theorem validStringEscapes_quote (inside : Bool) (rest : Bytes) :
    validStringEscapes inside ('"'.toUInt8 :: rest) = validStringEscapes (!inside) rest := by
  rw [validStringEscapes.eq_def]
  simp

variable {b p q r s : UInt8} {u : Nat} {text : List Char} {items : List Item}

theorem validStringEscapes_outside (h : b ≠ '"'.toUInt8) (rest : Bytes) :
    validStringEscapes false (b :: rest) = validStringEscapes false rest := by
  rw [validStringEscapes.eq_def]
  simp [h]

theorem validStringEscapes_raw (hQuote : b ≠ '"'.toUInt8) (hSlash : b ≠ '\\'.toUInt8)
    (inside : Bool) (rest : Bytes) :
    validStringEscapes inside (b :: rest) = validStringEscapes inside rest := by
  rw [validStringEscapes.eq_def]
  simp [hQuote, hSlash]

theorem validStringEscapes_short {letter : UInt8} (h : letter ≠ 'u'.toUInt8) (rest : Bytes) :
    validStringEscapes true ('\\'.toUInt8 :: letter :: rest) = validStringEscapes true rest := by
  have hQuote : '\\'.toUInt8 ≠ '"'.toUInt8 := by decide
  rw [validStringEscapes.eq_def]
  simp [hQuote, h]

theorem validStringEscapes_unit (h : hexUnitBytes p q r s = some u)
    (rest : Bytes) :
    validStringEscapes true ('\\'.toUInt8 :: 'u'.toUInt8 :: p :: q :: r :: s :: rest) =
      if isLowSurrogate u then false
      else if !isHighSurrogate u then validStringEscapes true rest
      else
        match rest with
        | slash :: letter :: p :: q :: r :: s :: rest =>
          if slash ≠ '\\'.toUInt8 ∨ letter ≠ 'u'.toUInt8 then false
          else
            match hexUnitBytes p q r s with
            | none => false
            | some low => if isLowSurrogate low then validStringEscapes true rest else false
        | _ => false := by
  have hQuote : '\\'.toUInt8 ≠ '"'.toUInt8 := by decide
  rw [validStringEscapes.eq_def]
  simp only [hQuote, if_false, if_true, Bool.not_true, Bool.false_eq_true, ne_eq, not_true_eq_false,
    unicodeEscape_four, h]
  rfl

theorem validStringEscapes_high (h : hexUnitBytes p q r s = some u)
    (hHigh : isHighSurrogate u) {rest : Bytes}
    (hRest : ∀ more, rest ≠ '\\'.toUInt8 :: 'u'.toUInt8 :: more) :
    validStringEscapes true ('\\'.toUInt8 :: 'u'.toUInt8 :: p :: q :: r :: s :: rest) = false := by
  rw [validStringEscapes_unit h]
  split
  · rfl
  rw [hHigh]
  simp only [Bool.not_true, Bool.false_eq_true, if_false]
  split
  · rw [if_pos]
    by_contra hBoth
    obtain ⟨h₁, h₂⟩ := not_or.mp hBoth
    exact hRest _ (by rw [not_not.mp h₁, not_not.mp h₂])
  · rfl

theorem utf8_unit_spelling (h : ItemSpells (.unit u) text) :
    ∃ p q r s, utf8 text = ['\\'.toUInt8, 'u'.toUInt8, p, q, r, s] ∧ hexUnitBytes p q r s = some u := by
  obtain ⟨a, b, c, d, rfl, hUnit⟩ := h
  obtain ⟨ha, hb, hc, hd⟩ := hexUnit_ascii hUnit
  refine ⟨_, _, _, _, ?_, hexUnitBytes_toUInt8 hUnit⟩
  rw [utf8_ascii]
  · rfl
  intro x hx
  simp only [mem_cons, not_mem_nil, or_false] at hx
  rcases hx with rfl | rfl | rfl | rfl | rfl | rfl
  · decide
  · decide
  · exact ha
  · exact hb
  · exact hc
  · exact hd

theorem not_unit_head {item : Item} (h : ItemSpells item text)
    (hItem : ∀ u, item ≠ .unit u) (rest more : Bytes) :
    utf8 text ++ rest ≠ '\\'.toUInt8 :: 'u'.toUInt8 :: more := by
  intro hEq
  cases item with
  | raw c =>
    obtain ⟨rfl, -, -, hSlash⟩ := h
    by_cases hc : c.toNat < 128
    · rw [utf8_cons, encodeChar_ascii hc] at hEq
      exact hSlash (toUInt8_inj hc (List.cons.inj hEq).1 (by decide))
    obtain ⟨b, bytes, hBytes, hb⟩ := encodeChar_high hc
    rw [utf8_cons, hBytes] at hEq
    exact byte_ne_ascii hb (by decide) (List.cons.inj hEq).1
  | short e =>
    subst h
    have hAscii : e.letter.toNat < 128 := by cases e <;> decide
    rw [utf8_cons, utf8_cons, encodeChar_ascii hAscii] at hEq
    have hLetter := (List.cons.inj (List.cons.inj hEq).2).1
    exact e.letter_ne_u (toUInt8_inj hAscii hLetter (by decide))
  | unit u => exact hItem u rfl

theorem validStringEscapes_item {item : Item} (h : ItemSpells item text)
    (hItem : ∀ u, item ≠ .unit u) (rest : Bytes) :
    validStringEscapes true (utf8 text ++ rest) = validStringEscapes true rest := by
  cases item with
  | raw c =>
    obtain ⟨rfl, -, hQuote, hSlash⟩ := h
    rw [utf8_cons, utf8_nil, append_nil]
    by_cases hc : c.toNat < 128
    · rw [encodeChar_ascii hc]
      exact validStringEscapes_raw (fun hb => hQuote (toUInt8_inj hc hb (by decide)))
        (fun hb => hSlash (toUInt8_inj hc hb (by decide))) _ _
    have hHigh := encodeChar_not_ascii (c := c) (by omega)
    generalize String.utf8EncodeChar c = bytes at hHigh
    induction bytes with
    | nil => rfl
    | cons b bytes ih =>
      have hb := hHigh b (by simp)
      rw [cons_append, validStringEscapes_raw (byte_ne_ascii hb (by decide))
        (byte_ne_ascii hb (by decide)), ih fun d hd => hHigh d (by simp [hd])]
  | short e =>
    subst h
    have hAscii : e.letter.toNat < 128 := by cases e <;> decide
    rw [utf8_cons, utf8_cons, encodeChar_ascii hAscii]
    exact validStringEscapes_short
      (fun hb => e.letter_ne_u (toUInt8_inj hAscii hb (by decide))) rest
  | unit u => exact absurd rfl (hItem u)

theorem validStringEscapes_items (items : List Item) : ∀ (body : List Char) (rest : Bytes),
    ItemsSpell items body → validStringEscapes true (utf8 body ++ '"'.toUInt8 :: rest) =
      ((scalars items).isSome && validStringEscapes false rest) := by
  fun_induction scalars items with
  | case1 =>
    rintro body rest rfl
    rw [utf8_nil, nil_append, validStringEscapes_quote]
    rfl
  | case2 c items ih | case3 e items ih =>
    rintro _ rest ⟨a, b, rfl, hItem, hItems⟩
    rw [utf8_append, append_assoc, validStringEscapes_item hItem (by simp), ih b rest hItems,
      Option.isSome_map]
  | case4 u hHigh low items hLow ih =>
    rintro _ rest ⟨a, _, rfl, hItem, b, c, rfl, hItem', hItems⟩
    obtain ⟨p, q, r, s, ha, hUnit⟩ := utf8_unit_spelling hItem
    obtain ⟨p', q', r', s', hb, hUnit'⟩ := utf8_unit_spelling hItem'
    have hNotLow : isLowSurrogate u = false := by
      simp only [isHighSurrogate, isLowSurrogate, Bool.and_eq_true, decide_eq_true_eq,
        Bool.and_eq_false_iff, decide_eq_false_iff_not] at hHigh ⊢
      omega
    simp only [utf8_append, ha, hb, cons_append, nil_append]
    rw [validStringEscapes_unit hUnit]
    simp only [hNotLow, hHigh, hUnit', hLow, Bool.false_eq_true, if_false, if_true, Bool.not_true,
      ne_eq, not_true_eq_false, or_self, ih c rest hItems, Option.isSome_map]
  | case5 u hHigh low items hLow =>
    rintro _ rest ⟨a, _, rfl, hItem, b, c, rfl, hItem', hItems⟩
    obtain ⟨p, q, r, s, ha, hUnit⟩ := utf8_unit_spelling hItem
    obtain ⟨p', q', r', s', hb, hUnit'⟩ := utf8_unit_spelling hItem'
    simp only [utf8_append, ha, hb, cons_append, nil_append]
    rw [validStringEscapes_unit hUnit]
    simp [hUnit', hHigh, hLow]
  | case6 u items hHigh hNext =>
    rintro _ rest ⟨a, body, rfl, hItem, hItems⟩
    obtain ⟨p, q, r, s, ha, hUnit⟩ := utf8_unit_spelling hItem
    simp only [utf8_append, ha, cons_append, nil_append, Option.isSome_none, Bool.false_and]
    apply validStringEscapes_high hUnit hHigh
    intro more hEq
    cases items with
    | nil =>
      subst hItems
      exact absurd (List.cons.inj hEq).1 (by decide)
    | cons item items =>
      obtain ⟨b, c, rfl, hItem', -⟩ := hItems
      rw [utf8_append, append_assoc] at hEq
      exact not_unit_head hItem' (by rintro v rfl; exact hNext v items rfl) _ more hEq
  | case7 u items hHigh hLow =>
    rintro _ rest ⟨a, body, rfl, hItem, hItems⟩
    obtain ⟨p, q, r, s, ha, hUnit⟩ := utf8_unit_spelling hItem
    simp only [utf8_append, ha, cons_append, nil_append]
    rw [validStringEscapes_unit hUnit]
    simp [hLow]
  | case8 u items hHigh hLow ih =>
    rintro _ rest ⟨a, body, rfl, hItem, hItems⟩
    obtain ⟨p, q, r, s, ha, hUnit⟩ := utf8_unit_spelling hItem
    simp only [utf8_append, ha, cons_append, nil_append]
    rw [validStringEscapes_unit hUnit]
    simp [hHigh, hLow, ih body rest hItems]

theorem validStringEscapes_plain (h : '"' ∉ text) (rest : Bytes) :
    validStringEscapes false (utf8 text ++ rest) = validStringEscapes false rest := by
  have hBytes : ∀ b ∈ utf8 text, b ≠ '"'.toUInt8 := by
    intro b hb
    obtain ⟨c, hc, hb⟩ := mem_flatMap.mp hb
    by_cases hAscii : c.toNat < 128
    · rw [encodeChar_ascii hAscii, mem_singleton] at hb
      rw [hb]
      exact fun hEq => h (toUInt8_inj hAscii hEq (by decide) ▸ hc)
    · exact byte_ne_ascii (encodeChar_not_ascii (c := c) (by omega) b hb) (by decide)
  generalize utf8 text = bytes at hBytes
  induction bytes with
  | nil => rfl
  | cons b bytes ih =>
    rw [cons_append, validStringEscapes_outside (hBytes b (by simp)),
      ih fun d hd => hBytes d (by simp [hd])]

theorem validStringEscapes_string (h : StringSpells items text) (rest : Bytes) :
    validStringEscapes false (utf8 text ++ rest) =
      ((scalars items).isSome && validStringEscapes false rest) := by
  obtain ⟨body, rfl, hItems⟩ := h
  have hText : utf8 ('"' :: body ++ ['"']) ++ rest =
      '"'.toUInt8 :: (utf8 body ++ '"'.toUInt8 :: rest) := by
    rw [utf8_enclosed (by decide) (by decide), cons_append, append_assoc]
    rfl
  rw [hText, validStringEscapes_quote]
  exact validStringEscapes_items items body rest hItems

theorem Ws.not_quote (h : Ws text) : '"' ∉ text := fun hc => absurd (h '"' hc) (by decide)

theorem number_not_quote (h : NumberSpelling text) : '"' ∉ text := by
  obtain ⟨sign, int, frac, exp, rfl, hSign, hInt, hFrac, hExp⟩ := h
  have hDigits {ds : List Char} (h : Digits ds) : '"' ∉ ds := fun hc => absurd (h.2 '"' hc) (by decide)
  have hIntFree : '"' ∉ int := by
    rcases hInt with rfl | ⟨hInt, -⟩
    · decide
    · exact hDigits hInt
  have hFracFree : '"' ∉ frac := by
    rcases hFrac with rfl | ⟨ds, rfl, hFrac⟩
    · decide
    · simp [hDigits hFrac]
  have hExpFree : '"' ∉ exp := by
    rcases hExp with rfl | ⟨e, sign, ds, rfl, rfl | rfl, rfl | rfl | rfl, hExp⟩
    · decide
    all_goals simp [hDigits hExp]
  rcases hSign with rfl | rfl <;> simp [hIntFree, hFracFree, hExpFree]

/-- The scan is outside of strings before the text and after it. -/
abbrev Transparent (text : List Char) : Prop :=
  ∀ rest, validStringEscapes false (utf8 text ++ rest) = validStringEscapes false rest

theorem Transparent.append {a b : List Char} (ha : Transparent a) (hb : Transparent b) :
    Transparent (a ++ b) := by
  intro rest
  rw [utf8_append, append_assoc, ha, hb]

theorem Transparent.cons {c : Char} (hc : c ≠ '"') (h : Transparent text) : Transparent (c :: text) :=
  .append (a := [c]) (validStringEscapes_plain (by simpa using hc.symm)) h

theorem transparent_ws (h : Ws text) : Transparent text := validStringEscapes_plain (Ws.not_quote h)

theorem transparent_string {s : List Char} (hs : scalars items = some s) (h : StringSpells items text) :
    Transparent text := by
  intro rest
  rw [validStringEscapes_string h, hs, Option.isSome_some, Bool.true_and]

theorem transparent_padded {value : List Char → Prop} (hValue : ∀ body, value body → Transparent body)
    (h : Padded value text) : Transparent text := by
  obtain ⟨before, body, after, rfl, hBefore, hAfter, hBody⟩ := h
  exact ((transparent_ws hBefore).append (hValue body hBody)).append (transparent_ws hAfter)

theorem transparent_left {α β : Type} {body : α → List Char → Prop} {items : List α} {docs : List β}
    (hItems : Forall₂ (fun item _ => ∀ a, body item a → Transparent a) items docs) {first : Bool}
    (h : Left body first items text) : Transparent text := by
  induction hItems generalizing first text with
  | nil => exact transparent_ws h
  | cons hItem _ ih =>
    obtain ⟨sep, a, rest, rfl, hSep, ha, hRest⟩ := h
    refine .append ?_ ((hItem a ha).append (ih hRest))
    cases first with
    | true => exact transparent_ws (hSep ▸ ws_nil)
    | false =>
      obtain ⟨w, rfl, hw⟩ := hSep
      exact (transparent_ws hw).append (.cons (by decide) (transparent_ws ws_nil))

theorem validStringEscapes_spells (tree : Tree) : ∀ (text : List Char) (doc : Doc),
    Spells tree text → tree.doc? = some doc → Transparent text := by
  induction tree using Tree.induct with
  | null => rintro _ _ rfl -; exact validStringEscapes_plain (by simp)
  | bool b => cases b <;> rintro _ _ rfl - <;> exact validStringEscapes_plain (by simp)
  | num spelling => rintro _ _ ⟨rfl, h⟩ -; exact validStringEscapes_plain (number_not_quote h)
  | str items =>
    intro text doc h hDoc
    obtain ⟨s, hs, -⟩ := Option.map_eq_some_iff.mp hDoc
    exact transparent_string hs h
  | arr elements ih =>
    intro text doc h hDoc
    obtain ⟨docs, hDocs, -⟩ := Option.map_eq_some_iff.mp hDoc
    obtain ⟨body, rfl, hBody⟩ := spells_arr_iff.mp h
    have hItems := ((forall₂_and_left _ _).mpr ⟨ih, elementDocs?_eq_some_iff.mp hDocs⟩).imp
      (S := fun element _ => ∀ a, ElementBody element a → Transparent a) ?_
    · exact .cons (by decide) ((transparent_left hItems hBody).append (.cons (by decide) (transparent_ws ws_nil)))
    · rintro element doc ⟨hElem, hDoc⟩ _ ⟨w, v, rfl, hw, hv⟩
      exact (transparent_ws hw).append (hElem v doc hv hDoc)
  | obj members ih =>
    intro text doc h hDoc
    obtain ⟨docs, hDocs, -⟩ := Option.map_eq_some_iff.mp hDoc
    obtain ⟨body, rfl, hBody⟩ := spells_obj_iff.mp h
    have hItems := ((forall₂_and_left _ _).mpr ⟨ih, memberDocs?_eq_some_iff.mp hDocs⟩).imp
      (S := fun member _ => ∀ a, MemberBody member a → Transparent a) ?_
    · exact .cons (by decide) ((transparent_left hItems hBody).append (.cons (by decide) (transparent_ws ws_nil)))
    · rintro member doc ⟨hMember, hName, hDoc⟩ _ ⟨w, k, w', _, rfl, hw, hk, hw', w'', v, rfl, hw'', hv⟩
      exact (((transparent_ws hw).append (transparent_string hName hk)).append (transparent_ws hw')).append
        (.cons (by decide) ((transparent_ws hw'').append (hMember v doc.2 hv hDoc)))

theorem validStringEscapes_tail {c : Char} (hc : c ≠ '"')
    (h : validStringEscapes false (utf8 (c :: text))) : validStringEscapes false (utf8 text) := by
  have hChar : Transparent [c] := validStringEscapes_plain (by simpa using hc.symm)
  rwa [← singleton_append, utf8_append, hChar] at h

end Proctor.CanonicalJson
