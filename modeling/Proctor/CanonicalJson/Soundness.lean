import Proctor.CanonicalJson.Escapes

/-! # What an accepting run has read

A successful `readValue` consumed a lead and one value of the grammar, the value denotes a
conforming document within the depth limit, and the output is the sorted compact spelling of that
document. The loops of `readArray` and `readObject` are proved from the calls they make. -/
namespace Proctor.CanonicalJson

open Json List

def AsciiDistinct (keys : List (List Char)) : Prop :=
  (∀ key ∈ keys, ∀ c ∈ key, c.toNat < 128) ∧ keys.Nodup

def SafeInteger (n : Int) : Prop := -maxSafeInteger ≤ n ∧ n ≤ maxSafeInteger

/-- ASCII keys that are distinct within each object, and safe integers. -/
def Conforms (doc : Doc) : Prop := doc.Every AsciiDistinct SafeInteger

def ValuePosition (s : TokenState) : Prop :=
  s = .topValue ∨ s = .arrayStart ∨ s = .arrayComma ∨ s = .objectColon

def FitsAt (depth : Nat) (doc : Doc) : Prop := Conforms doc ∧ depth + doc.depth ≤ maxDepth

def Reads (depth : Nat) (text : List Char) (s : TokenState) (stack : List TokenState) (out : Bytes)
    (d : Decoder) : Prop :=
  ∃ lead s' tree body tail doc, text = lead ++ body ++ tail ∧ Lead s lead s' ∧
    tokenValueAllowed s' = true ∧ Spells tree body ∧ tree.doc? = some doc ∧ FitsAt depth doc ∧
    out = utf8 doc.sort.text ∧ d = ⟨utf8 tail, tokenValueEnd s', stack⟩ ∧
    validStringEscapes false (utf8 tail) = true

def ValueSound (fuel : Nat) : Prop :=
  ∀ (text : List Char) (s : TokenState) (stack : List TokenState) (depth : Nat) (out : Bytes)
    (d : Decoder), ValuePosition s → depth ≤ maxDepth →
    validStringEscapes false (utf8 text) = true →
    readValue fuel ⟨utf8 text, s, stack⟩ depth = .ok (out, d) → Reads depth text s stack out d

variable {lead : List Char} {s s' : TokenState}

theorem validStringEscapes_lead {lead text : List Char} (h : Lead s lead s')
    (hValid : validStringEscapes false (utf8 (lead ++ text))) :
    validStringEscapes false (utf8 text) := by
  have hFree : '"' ∉ lead := by
    cases h with
    | space hw => exact Ws.not_quote hw
    | colon hw hw' | element hw hw' | member hw hw' => simp [Ws.not_quote hw, Ws.not_quote hw']
  rwa [utf8_append, validStringEscapes_plain hFree] at hValid

theorem Lead.valueState (h : Lead s lead s')
    (hs : ValuePosition s) : s' ≠ .objectStart ∧ s' ≠ .objectKey := by
  cases h with
  | space hw => rcases hs with rfl | rfl | rfl | rfl <;> decide
  | colon hw hw' | element hw hw' => decide
  | member hw hw' => rcases hs with h | h | h | h <;> cases h

variable {stack : List TokenState} {text : List Char} {d : Decoder}

theorem scalarToken_sound {token : Token} (hs : ValuePosition s)
    (hValid : validStringEscapes false (utf8 text)) (hToken : ∀ c, token ≠ .delim c)
    (h : Decoder.token ⟨utf8 text, s, stack⟩ = .ok (token, d)) :
    ∃ lead s' tree body tail, text = lead ++ body ++ tail ∧ Lead s lead s' ∧
      tokenValueAllowed s' ∧ Spells tree body ∧ TokenOf token tree ∧
      d = ⟨utf8 tail, tokenValueEnd s', stack⟩ ∧
      validStringEscapes false (utf8 body ++ utf8 tail) := by
  obtain ⟨lead, s', rest, rfl, hLead, -, hStep⟩ := token_sound h
  have hState := Lead.valueState hLead hs
  have hRest := validStringEscapes_lead hLead hValid
  generalize hEq : some token = result at hStep
  cases hStep with
  | openArray | closeArray | openObject | closeObject => exact absurd (Option.some.inj hEq) (hToken _)
  | colon | elementComma | memberComma => cases hEq
  | key hKey => exact absurd hKey (not_or.mpr hState)
  | scalar hAllow hTree hOf =>
    cases hEq
    rw [utf8_append] at hRest
    exact ⟨lead, s', _, _, _, by rw [append_assoc], hLead, hAllow, hTree, hOf, rfl, hRest⟩

/-- A delimiter that is read opens a container or closes the innermost one. -/
theorem delimToken_sound {c : Char} (hValid : validStringEscapes false (utf8 text))
    (h : Decoder.token ⟨utf8 text, s, stack⟩ = .ok (.delim c, d)) :
    ∃ lead tail, text = lead ++ c :: tail ∧ validStringEscapes false (utf8 tail) ∧
      ((c = '[' ∨ c = '\x7b') ∧ (∃ s', Lead s lead s' ∧ tokenValueAllowed s' ∧
          d = ⟨utf8 tail, if c = '[' then .arrayStart else .objectStart, s' :: stack⟩) ∨
        (c = ']' ∨ c = '\x7d') ∧ Ws lead ∧
          ∃ outer below, stack = outer :: below ∧ d = ⟨utf8 tail, tokenValueEnd outer, below⟩) := by
  obtain ⟨lead, s', rest, rfl, hLead, -, hStep⟩ := token_sound h
  have hRest := validStringEscapes_lead hLead hValid
  generalize hEq : some (Token.delim c) = result at hStep
  cases hStep with
  | openArray hAllow | openObject hAllow =>
    cases hEq
    exact ⟨lead, _, rfl, validStringEscapes_tail (by decide) hRest, .inl ⟨by decide, s', hLead, hAllow, rfl⟩⟩
  | closeArray hState hStack | closeObject hState hStack =>
    cases hEq
    cases hLead with
    | space hw =>
      exact ⟨lead, _, rfl, validStringEscapes_tail (by decide) hRest, .inr ⟨by decide, hw, _, _, hStack, rfl⟩⟩
    | colon | element | member => rcases hState with h | h <;> cases h
  | colon | elementComma | memberComma => cases hEq
  | key => cases hEq
  | scalar _ _ hOf => cases hEq; cases hOf

/-- The token state before the next element of an array. -/
def arrayState : Bool → TokenState
  | true => .arrayStart
  | false => .arrayComma

theorem Lead.element_inv {first : Bool} (h : Lead (arrayState first) lead s') (hAllow : tokenValueAllowed s') :
    tokenValueEnd s' = .arrayComma ∧ ∃ sep w, lead = sep ++ w ∧ Separator first sep ∧ Ws w := by
  cases first with
  | true =>
    cases h with
    | space hw => exact ⟨rfl, [], lead, rfl, rfl, hw⟩
  | false =>
    cases h with
    | space hw => cases hAllow
    | @element w w' hw hw' => exact ⟨rfl, w ++ [','], w', by simp, ⟨w, rfl, hw⟩, hw'⟩

theorem Lead.objectColon_allowed (h : Lead .objectColon lead s')
    (hAllow : tokenValueAllowed s') :
    s' = .objectValue ∧ ∃ w w', lead = w ++ ':' :: w' ∧ Ws w ∧ Ws w' := by
  cases h with
  | space hw => cases hAllow
  | colon hw hw' => exact ⟨rfl, _, _, rfl, hw, hw'⟩

def sortedText (doc : Doc) : List Char := doc.sort.text

theorem sortedText_ne_nil (doc : Doc) : utf8 doc.sort.text ≠ [] := by
  obtain ⟨c, rest, hText, -⟩ := spells_head doc.sort.spells_tree
  intro h
  rw [hText] at h
  exact absurd (utf8_injective (h.trans utf8_nil.symm)) (by simp)

/-- The output of `readArray` after the elements that it has read. -/
def arrayOutput (docs : List Doc) : Bytes := '['.toUInt8 :: utf8 (separated (docs.map sortedText))

theorem arrayOutput_append (docs : List Doc) (doc : Doc) :
    (if (arrayOutput docs).length > 1 then arrayOutput docs ++ [','.toUInt8] else arrayOutput docs) ++
      utf8 doc.sort.text = arrayOutput (docs ++ [doc]) := by
  cases docs with
  | nil => simp [arrayOutput, separated, sortedText]
  | cons first docs =>
    have hPos := length_pos_iff.mpr (sortedText_ne_nil first)
    have hLong : (arrayOutput (first :: docs)).length > 1 := by
      simp only [arrayOutput, map_cons, separated, utf8_append, length_cons, length_append, sortedText]
      omega
    rw [if_pos hLong]
    simp [arrayOutput, separated, sortedText, flatMap_append, utf8_append]
    rfl

theorem arrayOutput_eq (docs : List Doc) : arrayOutput docs ++ [']'.toUInt8] = utf8 (Doc.arr docs).sort.text := by
  simp only [Doc.sort, Doc.text, sortElements_eq_map, elementTexts_eq_map, map_map]
  rw [utf8_enclosed (by decide) (by decide)]
  rfl

theorem readArray_sound (fuel : Nat) : (∀ f < fuel, ValueSound f) →
    ∀ (text : List Char) (acc : List Doc) (outer : TokenState) (stack : List TokenState) (depth : Nat)
      (out : Bytes) (d : Decoder), depth ≤ maxDepth → validStringEscapes false (utf8 text) →
      readArray fuel ⟨utf8 text, arrayState acc.isEmpty, outer :: stack⟩ depth (arrayOutput acc) =
        .ok (out, d) →
      ∃ trees body tail docs, text = body ++ ']' :: tail ∧ Left ElementBody acc.isEmpty trees body ∧
        elementDocs? trees = some docs ∧ (∀ e ∈ docs, FitsAt depth e) ∧
        out = utf8 (Doc.arr (acc ++ docs)).sort.text ∧ d = ⟨utf8 tail, tokenValueEnd outer, stack⟩ ∧
        validStringEscapes false (utf8 tail) := by
  induction fuel with
  | zero => intro _ text acc outer stack depth out d _ _ h; cases h
  | succ fuel ih =>
    intro hValue text acc outer stack depth out d hDepth hValid h
    rw [readArray] at h
    split at h
    · split at h
      · cases h
      rename_i value decoder hRead
      have hPosition : ValuePosition (arrayState acc.isEmpty) := by
        cases acc with
        | nil => exact .inr (.inl rfl)
        | cons => exact .inr (.inr (.inl rfl))
      obtain ⟨lead, s', tree, v, tail, doc, rfl, hLead, hAllow, hTree, hDoc, hFits, rfl, rfl, hTail⟩ :=
        hValue fuel (by omega) text _ (outer :: stack) depth value decoder hPosition hDepth hValid hRead
      obtain ⟨hEnd, sep, w, rfl, hSep, hw⟩ := Lead.element_inv hLead hAllow
      have hNext : (acc ++ [doc]).isEmpty = false := by simp
      have hLoop := ih (fun f hf => hValue f (by omega)) tail (acc ++ [doc]) outer stack depth out d hDepth hTail
      rw [hNext, ← arrayOutput_append] at hLoop
      rw [hEnd] at h
      obtain ⟨trees, rest, tail', docs, rfl, hMore, hDocs, hAll, rfl, rfl, hTail'⟩ := hLoop h
      refine ⟨tree :: trees, sep ++ (w ++ v ++ rest), tail', doc :: docs, by simp,
        ⟨sep, w ++ v, rest, rfl, hSep, ⟨w, v, rfl, hw, hTree⟩, hMore⟩, ?_, ?_, by simp, rfl, hTail'⟩
      · rw [elementDocs?, hDoc, hDocs]; rfl
      · exact forall_mem_cons.mpr ⟨hFits, hAll⟩
    · split at h
      · rename_i decoder hToken
        cases h
        obtain ⟨w, tail, rfl, hTail, ⟨hOpen, -⟩ | ⟨-, hw, _, _, hStack, rfl⟩⟩ := delimToken_sound hValid hToken
        · exact absurd hOpen (by decide)
        cases hStack
        exact ⟨[], w, tail, [], rfl, hw, rfl, by simp, by rw [arrayOutput_eq, append_nil], rfl, hTail⟩
      · cases h

end Proctor.CanonicalJson
