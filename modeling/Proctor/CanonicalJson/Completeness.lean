import Proctor.CanonicalJson.ObjectSoundness

/-! # Every conforming document is read

From a lead and the spelling of a conforming document, `readValue` consumes exactly that spelling
and writes the sorted document, with fuel twice the length of the spelling. -/
namespace Proctor.CanonicalJson

open Json List

theorem readNumber_complete {spelling : List Char} {n : Int} (hSpelling : NumberSpelling spelling)
    (hn : integer spelling = some n) (hSafe : SafeInteger n) : parseInt (utf8 spelling) = some n := by
  rw [parseInt_utf8 (numberSpelling_head hSpelling), hn, Option.filter_some, if_pos]
  have hBound : maxSafeInteger = 2 ^ 53 - 1 := rfl
  simp only [SafeInteger, hBound] at hSafe
  simp only [decide_eq_true_eq]
  omega

def Completes (tree : Tree) : Prop :=
  ∀ (body : List Char) (doc : Doc), Spells tree body → tree.doc? = some doc →
    ∀ (depth : Nat), FitsAt depth doc → ∀ (s s' : TokenState) (lead : List Char), Lead s lead s' →
    tokenValueAllowed s' = true → ∀ (stack : List TokenState) (tail : List Char), NumberStop tail →
    ∀ fuel, 2 * body.length ≤ fuel →
    readValue fuel ⟨utf8 (lead ++ body ++ tail), s, stack⟩ depth =
      .ok (utf8 doc.sort.text, ⟨utf8 tail, tokenValueEnd s', stack⟩)

variable {body w : List Char} {tree : Tree}

theorem Spells.fuel_pos (h : Spells tree body) {fuel : Nat}
    (hFuel : 2 * body.length ≤ fuel) : ∃ f, fuel = f + 1 := by
  obtain ⟨c, rest, rfl, -⟩ := spells_head h
  rw [length_cons] at hFuel
  exact ⟨fuel - 1, by omega⟩

theorem completes_scalar (token : Token) (hToken : TokenOf token tree)
    (h : ∀ body doc, Spells tree body → tree.doc? = some doc → Conforms doc → PlainNumber tree ∧
      ∀ f depth decoder d, Decoder.token decoder = .ok (token, d) →
        readValue (f + 1) decoder depth = .ok (utf8 doc.sort.text, d)) : Completes tree := by
  intro body doc hSpells hDoc depth hFits s s' lead hLead hAllow stack tail hStop fuel hFuel
  obtain ⟨f, rfl⟩ := Spells.fuel_pos hSpells hFuel
  obtain ⟨hPlain, hRead⟩ := h body doc hSpells hDoc hFits.1
  refine hRead f depth _ _ ?_
  rw [append_assoc]
  exact token_lead hLead (next_scalar hAllow hSpells hToken hPlain hStop stack)

theorem completes_null : Completes .null := by
  refine completes_scalar .null trivial ?_
  rintro body doc - ⟨⟩ -
  refine ⟨trivial, fun f depth decoder d hToken => ?_⟩
  rw [readValue, hToken]
  rfl

theorem completes_bool (b : Bool) : Completes (.bool b) := by
  refine completes_scalar (.bool b) rfl ?_
  rintro body doc - ⟨⟩ -
  refine ⟨trivial, fun f depth decoder d hToken => ?_⟩
  rw [readValue, hToken]
  cases b <;> rfl

theorem completes_str (items : List Item) : Completes (.str items) := by
  refine completes_scalar (.string (unquote (literals items))) rfl fun body doc _ hDoc _ => ?_
  obtain ⟨name, hName, rfl⟩ := Option.map_eq_some_iff.mp hDoc
  refine ⟨trivial, fun f depth decoder d hToken => ?_⟩
  rw [readValue, hToken]
  dsimp only
  rw [unquote_literals items name hName, appendString_utf8]
  rfl

theorem completes_num (spelling : List Char) : Completes (.num spelling) := by
  refine completes_scalar (.number (utf8 spelling)) rfl fun body doc h hDoc hConforms => ?_
  obtain ⟨n, hn, rfl⟩ := Option.map_eq_some_iff.mp hDoc
  have hSafe : SafeInteger n := hConforms
  have hRange : ¬ (n < -maxSafeInteger ∨ n > maxSafeInteger) := by
    have hLow := hSafe.1
    have hHigh := hSafe.2
    omega
  refine ⟨⟨n, hn⟩, fun f depth decoder d hToken => ?_⟩
  rw [readValue, hToken]
  dsimp only
  rw [readNumber_complete h.2 hn hSafe]
  dsimp only
  rw [if_neg hRange]
  rfl

variable {first : Bool} {sep v : List Char}

theorem more_item (hSep : Separator first sep) (hw : Ws w) (h : Spells tree v) (tail : List Char)
    (s : TokenState) (stack : List TokenState) : Decoder.more ⟨utf8 (sep ++ w ++ v ++ tail), s, stack⟩ := by
  cases first with
  | true =>
    cases hSep
    obtain ⟨c, rest, rfl, hSpace, hClose, hBrace, -⟩ := spells_head h
    rw [nil_append, append_assoc, cons_append, more_text hw hSpace, bne_iff_ne.mpr hClose,
      bne_iff_ne.mpr hBrace]
    rfl
  | false =>
    obtain ⟨w', rfl, hw'⟩ := hSep
    simp only [append_assoc, cons_append, nil_append]
    rw [more_text hw' (by decide)]
    rfl

theorem element_lead (hSep : Separator first sep) (hw : Ws w) :
    ∃ s', Lead (arrayState first) (sep ++ w) s' ∧ tokenValueAllowed s' ∧ tokenValueEnd s' = .arrayComma := by
  cases first with
  | true =>
    cases hSep
    exact ⟨.arrayStart, .space hw, rfl, rfl⟩
  | false =>
    obtain ⟨w', rfl, hw'⟩ := hSep
    rw [append_assoc]
    exact ⟨.arrayValue, .element hw' hw, rfl, rfl⟩

theorem readArray_complete (trees : List Tree) : (∀ t ∈ trees, Completes t) →
    ∀ (text : List Char) (docs acc : List Doc), Left ElementBody acc.isEmpty trees text →
      Forall₂ (fun tree doc => tree.doc? = some doc) trees docs → ∀ (depth : Nat),
      (∀ e ∈ docs, FitsAt depth e) →
      ∀ (outer : TokenState) (stack : List TokenState) (tail : List Char) (fuel : Nat),
      2 * text.length + 3 ≤ fuel →
      readArray fuel ⟨utf8 (text ++ ']' :: tail), arrayState acc.isEmpty, outer :: stack⟩ depth
          (arrayOutput acc) =
        .ok (utf8 (Doc.arr (acc ++ docs)).sort.text, ⟨utf8 tail, tokenValueEnd outer, stack⟩) := by
  induction trees with
  | nil =>
    intro _ text docs acc hText hDocs depth _ outer stack tail fuel hFuel
    cases hDocs
    obtain ⟨f, rfl⟩ : ∃ f, fuel = f + 1 := ⟨fuel - 1, by omega⟩
    have hState : arrayState acc.isEmpty = .arrayStart ∨ arrayState acc.isEmpty = .arrayComma := by
      cases acc.isEmpty <;> simp [arrayState]
    rw [readArray, more_text hText (by decide), token_lead (.space hText) (next_closeArray hState outer stack tail),
      append_nil, ← arrayOutput_eq]
    rfl
  | cons tree trees ih =>
    intro hTrees text docs acc hText hDocs depth hAll outer stack tail fuel hFuel
    obtain ⟨head, docs, hHead, hTail, rfl⟩ := forall₂_cons_left_iff.mp hDocs
    obtain ⟨sep, _, rest, rfl, hSep, ⟨w, v, rfl, hw, hTree⟩, hMore⟩ := hText
    obtain ⟨f, rfl⟩ : ∃ f, fuel = f + 1 := ⟨fuel - 1, by omega⟩
    obtain ⟨hHeadFits, hDocsFit⟩ := forall_mem_cons.mp hAll
    obtain ⟨s', hLead, hAllow, hEnd⟩ := element_lead hSep hw
    have hPos : 0 < v.length := by
      obtain ⟨c, more, rfl, -⟩ := spells_head hTree
      simp
    have hSplit : sep ++ (w ++ v ++ rest) ++ ']' :: tail = sep ++ w ++ v ++ (rest ++ ']' :: tail) := by simp
    simp only [length_append] at hFuel
    have hRead := hTrees tree (by simp) v head hTree hHead depth hHeadFits _ s' (sep ++ w) hLead hAllow
      (outer :: stack) (rest ++ ']' :: tail) (numberStop_left hMore (by simp) tail) f (by omega)
    have hNext : (acc ++ [head]).isEmpty = false := by simp
    have hLoop := ih (fun t ht => hTrees t (by simp [ht])) rest docs (acc ++ [head]) (hNext ▸ hMore)
      hTail depth hDocsFit outer stack tail f (by omega)
    rw [hNext, ← arrayOutput_append] at hLoop
    rw [hSplit, readArray, if_pos (more_item hSep hw hTree _ _ _), hRead, hEnd]
    refine Eq.trans hLoop ?_
    simp

end Proctor.CanonicalJson
