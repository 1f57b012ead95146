import Proctor.CanonicalJson.Completeness

/-! # Every conforming object is read

The array and object loops together give `readValue_complete` by induction on the tree. -/
namespace Proctor.CanonicalJson

open Json List Option

theorem member_lead {first : Bool} {sep w : List Char} (hSep : Separator first sep) (hw : Ws w) :
    ∃ s', Lead (objectState first) (sep ++ w) s' ∧ (s' = .objectStart ∨ s' = .objectKey) := by
  cases first with
  | true =>
    cases hSep
    exact ⟨.objectStart, .space hw, .inl rfl⟩
  | false =>
    obtain ⟨w', rfl, hw'⟩ := hSep
    rw [append_assoc]
    exact ⟨.objectKey, .member hw' hw, .inr rfl⟩

theorem readObject_complete (members : List (List Item × Tree)) : (∀ m ∈ members, Completes m.2) →
    ∀ (text : List Char) (docs acc : List (List Char × Doc)), Left MemberBody acc.isEmpty members text →
      Forall₂ ReadAs members docs → ∀ (depth : Nat), (∀ m ∈ docs, FitsAt depth m.2) →
      AsciiDistinct ((acc ++ docs).map Prod.fst) →
      ∀ (outer : TokenState) (stack : List TokenState) (tail : List Char) (fuel : Nat),
      2 * text.length + 3 ≤ fuel →
      readObject fuel ⟨utf8 (text ++ '\x7d' :: tail), objectState acc.isEmpty, outer :: stack⟩ depth
          (encodedMembers acc) =
        .ok (objectOutput (acc ++ sortMembers docs), ⟨utf8 tail, tokenValueEnd outer, stack⟩) := by
  induction members with
  | nil =>
    intro _ text docs acc hText hDocs depth _ _ outer stack tail fuel hFuel
    cases hDocs
    obtain ⟨f, rfl⟩ : ∃ f, fuel = f + 1 := ⟨fuel - 1, by omega⟩
    have hState : objectState acc.isEmpty = .objectStart ∨ objectState acc.isEmpty = .objectComma := by
      cases acc.isEmpty <;> simp [objectState]
    rw [readObject, more_text hText (by decide), token_lead (.space hText) (next_closeObject hState outer stack tail),
      sortMembers, append_nil]
    rfl
  | cons member members ih =>
    intro hMems text docs acc hText hDocs depth hAll hKeys outer stack tail fuel hFuel
    obtain ⟨⟨name, head⟩, docs, ⟨hName, hHead⟩, hTail, rfl⟩ := forall₂_cons_left_iff.mp hDocs
    obtain ⟨sep, _, rest, rfl, hSep, ⟨w₁, k, w₂, _, rfl, hw₁, hk, hw₂, w₃, v, rfl, hw₃, hv⟩, hMore⟩ := hText
    obtain ⟨f, rfl⟩ : ∃ f, fuel = f + 1 := ⟨fuel - 1, by omega⟩
    obtain ⟨hHeadFits, hDocsFit⟩ := forall_mem_cons.mp hAll
    obtain ⟨s', hLead, hs'⟩ := member_lead hSep hw₁
    have hSplit : sep ++ (w₁ ++ k ++ w₂ ++ ':' :: (w₃ ++ v) ++ rest) ++ '\x7d' :: tail =
        sep ++ w₁ ++ k ++ ((w₂ ++ ':' :: w₃) ++ v ++ (rest ++ '\x7d' :: tail)) := by simp
    simp only [length_append, length_cons] at hFuel
    have hString : Spells (.str member.1) k := hk
    have hKey := token_lead hLead (next_key hs' hk (outer :: stack)
      ((w₂ ++ ':' :: w₃) ++ v ++ (rest ++ '\x7d' :: tail)))
    have hRead := hMems member (by simp) v head hv hHead depth hHeadFits .objectColon .objectValue
      (w₂ ++ ':' :: w₃) (.colon hw₂ hw₃) rfl (outer :: stack) (rest ++ '\x7d' :: tail)
      (numberStop_left hMore (by simp) tail) f (by omega)
    have hAscii : ascii (utf8 name) := (ascii_utf8 name).mpr (hKeys.1 name (by simp))
    have hNew : ¬ ((encodedMembers acc).lookup (utf8 name)).isSome := by
      rw [lookup_isSome_iff]
      simp only [map_append, map_cons] at hKeys
      exact fun hMem => (nodup_append.mp hKeys.2).2.2 name hMem name (by simp) rfl
    have hNext : (acc ++ [(name, head.sort)]).isEmpty = false := by simp
    have hLoop := ih (fun m hm => hMems m (by simp [hm])) rest docs (acc ++ [(name, head.sort)])
      (hNext ▸ hMore) hTail depth hDocsFit (by simpa using hKeys) outer stack
      tail f (by omega)
    rw [hNext, ← encodedMembers_append] at hLoop
    rw [← append_assoc, unquote_literals member.1 name hName] at hKey
    rw [hSplit, readObject, if_pos (more_item hSep hw₁ hString _ _ _), hKey]
    dsimp only
    rw [hAscii, if_neg (by simp), if_neg hNew, hRead]
    refine Eq.trans hLoop ?_
    simp [sortMembers]

theorem completes_arr {elements : List Tree} (hElems : ∀ t ∈ elements, Completes t) :
    Completes (.arr elements) := by
  intro body doc h hDoc depth hFits s s' lead hLead hAllow stack tail hStop fuel hFuel
  obtain ⟨f, rfl⟩ := Spells.fuel_pos h hFuel
  obtain ⟨docs, hDocs, rfl⟩ := map_eq_some_iff.mp hDoc
  obtain ⟨inner, rfl, hBody⟩ := spells_arr_iff.mp h
  have hDepth : depth < maxDepth := by
    have := hFits.2
    rw [Doc.depth] at this
    omega
  have hText : lead ++ ('[' :: inner ++ [']']) ++ tail = lead ++ '[' :: (inner ++ ']' :: tail) := by simp
  simp only [length_append, length_cons, length_nil] at hFuel
  rw [hText, readValue, token_lead hLead (next_openArray hAllow stack _)]
  dsimp only
  rw [if_neg (by omega), if_neg (by decide), if_pos rfl]
  exact readArray_complete elements hElems inner docs [] hBody (elementDocs?_eq_some_iff.mp hDocs) (depth + 1)
    ((fitsAt_arr hDepth).mp hFits) s' stack tail f (by omega)

theorem completes_obj {members : List (List Item × Tree)} (hMems : ∀ m ∈ members, Completes m.2) :
    Completes (.obj members) := by
  intro body doc h hDoc depth hFits s s' lead hLead hAllow stack tail hStop fuel hFuel
  obtain ⟨f, rfl⟩ := Spells.fuel_pos h hFuel
  obtain ⟨docs, hDocs, rfl⟩ := map_eq_some_iff.mp hDoc
  obtain ⟨inner, rfl, hBody⟩ := spells_obj_iff.mp h
  have hDepth : depth < maxDepth := by
    have := hFits.2
    rw [Doc.depth] at this
    omega
  obtain ⟨hKeys, hAll⟩ := (fitsAt_obj hDepth).mp hFits
  have hText : lead ++ ('\x7b' :: inner ++ ['\x7d']) ++ tail =
      lead ++ '\x7b' :: (inner ++ '\x7d' :: tail) := by simp
  simp only [length_append, length_cons, length_nil] at hFuel
  rw [hText, readValue, token_lead hLead (next_openObject hAllow stack _)]
  dsimp only
  rw [if_neg (by omega), if_pos rfl, ← objectOutput_eq hKeys]
  exact readObject_complete members hMems inner docs [] hBody (memberDocs?_eq_some_iff.mp hDocs) (depth + 1)
    hAll hKeys s' stack tail f (by omega)

theorem readValue_complete (tree : Tree) : Completes tree := by
  induction tree using Tree.induct with
  | null => exact completes_null
  | bool b => exact completes_bool b
  | num spelling => exact completes_num spelling
  | str items => exact completes_str items
  | arr elements ih => exact completes_arr ih
  | obj members ih => exact completes_obj ih

end Proctor.CanonicalJson
