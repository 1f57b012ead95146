import Proctor.CanonicalJson.Soundness

/-! # Objects of an accepting run, and the whole value

The members collected by `readObject` have distinct ASCII keys, and what it writes is the sorted
object. With the loops settled, `readValue_sound` follows by induction on the fuel. -/
namespace Proctor.CanonicalJson

open Json List
open Prod (fst)

variable {depth : Nat} {s : TokenState} {stack : List TokenState} {text spelling : List Char} {doc : Doc}

/-- The token state before the next member of an object. -/
def objectState : Bool → TokenState
  | true => .objectStart
  | false => .objectComma

theorem Lead.member_inv {first : Bool} {lead : List Char} {s' : TokenState} (h : Lead (objectState first) lead s')
    (hs' : tokenValueAllowed s' ∨ s' = .objectStart ∨ s' = .objectKey) :
    tokenValueAllowed s' = false ∧ ∃ sep w, lead = sep ++ w ∧ Separator first sep ∧ Ws w := by
  cases first with
  | true =>
    cases h with
    | space hw => exact ⟨rfl, [], lead, rfl, rfl, hw⟩
  | false =>
    cases h with
    | space hw => rcases hs' with h | h | h <;> cases h
    | @member w w' hw hw' => exact ⟨rfl, w ++ [','], w', by simp, ⟨w, rfl, hw⟩, hw'⟩

theorem member_sound {fuel : Nat} (hValue : ValueSound fuel) {key value : Bytes} {d₁ d₂ : Decoder}
    {first : Bool} (hDepth : depth ≤ maxDepth) (hValid : validStringEscapes false (utf8 text))
    (hKey : Decoder.token ⟨utf8 text, objectState first, stack⟩ = .ok (.string key, d₁))
    (hRead : readValue fuel d₁ depth = .ok (value, d₂)) :
    ∃ sep body member name doc tail, text = sep ++ (body ++ tail) ∧ Separator first sep ∧
      MemberBody member body ∧ scalars member.1 = some name ∧ member.2.doc? = some doc ∧
      FitsAt depth doc ∧ key = utf8 name ∧ value = utf8 doc.sort.text ∧
      d₂ = ⟨utf8 tail, .objectComma, stack⟩ ∧ validStringEscapes false (utf8 tail) := by
  obtain ⟨lead, s', rest, rfl, hLead, -, hStep⟩ := token_sound hKey
  have hRest := validStringEscapes_lead hLead hValid
  generalize hEq : some (Token.string key) = result at hStep
  cases hStep with
  | openArray | closeArray | openObject | closeObject => cases hEq
  | colon | elementComma | memberComma => cases hEq
  | scalar hAllow =>
    rw [(Lead.member_inv hLead (.inl hAllow)).1] at hAllow
    cases hAllow
  | @key items k tail₁ hState hItems =>
    cases hEq
    rw [utf8_append, validStringEscapes_string hItems, Bool.and_eq_true] at hRest
    obtain ⟨name, hName⟩ := Option.isSome_iff_exists.mp hRest.1
    obtain ⟨lead₂, s₂, tree, v, tail, doc, rfl, hLead₂, hAllow, hTree, hDoc, hFits, rfl, rfl, hTail⟩ :=
      hValue tail₁ .objectColon stack depth value d₂ (.inr (.inr (.inr rfl))) hDepth hRest.2 hRead
    obtain ⟨rfl, w₂, w₃, rfl, hw₂, hw₃⟩ := Lead.objectColon_allowed hLead₂ hAllow
    obtain ⟨-, sep, w, rfl, hSep, hw⟩ := Lead.member_inv hLead (.inr hState)
    exact ⟨sep, w ++ k ++ w₂ ++ ':' :: (w₃ ++ v), (items, tree), name, doc, tail, by simp, hSep,
      ⟨w, k, w₂, _, rfl, hw, hItems, hw₂, w₃, v, rfl, hw₃, hTree⟩, hName, hDoc, hFits,
      unquote_literals items name hName, rfl, rfl, hTail⟩

theorem AsciiDistinct.append {acc : List (List Char × Doc)} {name : List Char}
    (hAcc : AsciiDistinct (acc.map fst)) (hAscii : ascii (utf8 name))
    (hNew : ((encodedMembers acc).lookup (utf8 name)).isSome ≠ true) :
    AsciiDistinct ((acc ++ [(name, doc)]).map fst) := by
  rw [map_append]
  constructor
  · exact forall_mem_append.mpr ⟨hAcc.1, forall_mem_singleton.mpr ((ascii_utf8 name).mp hAscii)⟩
  · rw [Ne, lookup_isSome_iff] at hNew
    rw [nodup_append]
    refine ⟨hAcc.2, by simp, ?_⟩
    rintro a ha b hb rfl
    obtain rfl : a = name := mem_singleton.mp hb
    exact hNew ha

def objectOutput (members : List (List Char × Doc)) : Bytes :=
  appendMembers (encodedMembers members) 0 ['\x7b'.toUInt8]
    (((encodedMembers members).map fst).insertionSort (· ≤ ·)) ++ ['\x7d'.toUInt8]

theorem objectOutput_eq {members : List (List Char × Doc)} (h : AsciiDistinct (members.map fst)) :
    objectOutput (sortMembers members) = utf8 (Doc.obj members).sort.text := by
  have hKeys : ((sortMembers members).map fst).Nodup := by
    rw [sortMembers_keys]
    exact h.2
  rw [objectOutput, appendMembers_sorted hKeys]
  simp only [Doc.sort, Doc.text, memberTexts_eq_map]
  rw [utf8_enclosed (by decide) (by decide)]
  rfl

theorem encodedMembers_append (acc : List (List Char × Doc)) (name : List Char) (doc : Doc) :
    encodedMembers acc ++ [(utf8 name, utf8 doc.text)] = encodedMembers (acc ++ [(name, doc)]) := by
  simp [encodedMembers]

theorem readObject_sound (fuel : Nat) : (∀ f < fuel, ValueSound f) →
    ∀ (text : List Char) (acc : List (List Char × Doc)) (outer : TokenState) (stack : List TokenState)
      (depth : Nat) (out : Bytes) (d : Decoder), depth ≤ maxDepth →
      validStringEscapes false (utf8 text) → AsciiDistinct (acc.map fst) →
      readObject fuel ⟨utf8 text, objectState acc.isEmpty, outer :: stack⟩ depth (encodedMembers acc) =
        .ok (out, d) →
      ∃ members body tail docs, text = body ++ '\x7d' :: tail ∧ Left MemberBody acc.isEmpty members body ∧
        memberDocs? members = some docs ∧ (∀ m ∈ docs, FitsAt depth m.2) ∧
        AsciiDistinct ((acc ++ sortMembers docs).map fst) ∧
        out = objectOutput (acc ++ sortMembers docs) ∧ d = ⟨utf8 tail, tokenValueEnd outer, stack⟩ ∧
        validStringEscapes false (utf8 tail) := by
  induction fuel with
  | zero => intro _ text acc outer stack depth out d _ _ _ h; cases h
  | succ fuel ih =>
    intro hValue text acc outer stack depth out d hDepth hValid hAcc h
    rw [readObject] at h
    split at h
    · split at h
      · rename_i key decoder hKey
        split at h
        · cases h
        rename_i hAscii
        split at h
        · cases h
        rename_i hNew
        split at h
        · cases h
        rename_i value decoder' hRead
        obtain ⟨sep, body, member, name, doc, tail, rfl, hSep, hBody, hName, hDoc, hFits, rfl, rfl, rfl,
          hTail⟩ := member_sound (hValue fuel (by omega)) hDepth hValid hKey hRead
        have hAscii' : ascii (utf8 name) := by simpa using hAscii
        have hNext : (acc ++ [(name, doc.sort)]).isEmpty = false := by simp
        have hLoop := ih (fun f hf => hValue f (by omega)) tail (acc ++ [(name, doc.sort)]) outer stack depth
          out d hDepth hTail (hAcc.append hAscii' hNew)
        rw [hNext, ← encodedMembers_append] at hLoop
        obtain ⟨members, rest, tail', docs, rfl, hMore, hDocs, hAll, hKeys, rfl, rfl, hTail'⟩ := hLoop h
        refine ⟨member :: members, sep ++ (body ++ rest), tail', (name, doc) :: docs, by simp,
          ⟨sep, body, rest, rfl, hSep, hBody, hMore⟩, ?_, forall_mem_cons.mpr ⟨hFits, hAll⟩, ?_, ?_, rfl,
          hTail'⟩
        · rw [memberDocs?, hName, hDoc, hDocs]
          rfl
        · simpa [sortMembers] using hKeys
        · simp [sortMembers]
      · cases h
    · split at h
      · rename_i decoder hToken
        cases h
        obtain ⟨w, tail, rfl, hTail, ⟨hOpen, -⟩ | ⟨-, hw, _, _, hStack, rfl⟩⟩ := delimToken_sound hValid hToken
        · exact absurd hOpen (by decide)
        cases hStack
        exact ⟨[], w, tail, [], rfl, hw, rfl, by simp, by simpa [sortMembers] using hAcc,
          by simp [sortMembers, objectOutput], rfl, hTail⟩
      · cases h

theorem fitsAt_arr (hDepth : depth < maxDepth) {docs : List Doc} :
    FitsAt depth (.arr docs) ↔ ∀ e ∈ docs, FitsAt (depth + 1) e := by
  have hLimit : depth + (elementsDepth docs + 1) ≤ maxDepth ↔
      elementsDepth docs ≤ maxDepth - (depth + 1) := by omega
  rw [FitsAt, Conforms, every_arr, Doc.depth, hLimit, elementsDepth_le_iff]
  constructor
  · intro h e he
    exact ⟨h.1 e he, by have := h.2 e he; omega⟩
  · intro h
    exact ⟨fun e he => (h e he).1, fun e he => by have := (h e he).2; omega⟩

theorem fitsAt_obj (hDepth : depth < maxDepth) {docs : List (List Char × Doc)} :
    FitsAt depth (.obj docs) ↔
      AsciiDistinct (docs.map fst) ∧ ∀ m ∈ docs, FitsAt (depth + 1) m.2 := by
  have hLimit : depth + (membersDepth docs + 1) ≤ maxDepth ↔
      membersDepth docs ≤ maxDepth - (depth + 1) := by omega
  rw [FitsAt, Conforms, every_obj, Doc.depth, hLimit, membersDepth_le_iff]
  constructor
  · intro h
    exact ⟨h.1.1, fun m hm => ⟨h.1.2 m hm, by have := h.2 m hm; omega⟩⟩
  · intro h
    exact ⟨⟨h.1, fun m hm => (h.2 m hm).1⟩, fun m hm => by have := (h.2 m hm).2; omega⟩

theorem fitsAt_scalar (hDepth : depth ≤ maxDepth) (hDoc : Conforms doc)
    (hScalar : doc.depth = 0) : FitsAt depth doc := ⟨hDoc, by omega⟩

theorem numberSpelling_head (h : NumberSpelling spelling) : spelling.head? ≠ some '+' := by
  obtain ⟨sign, int, frac, exp, rfl, hSign, hInt, -⟩ := h
  rcases hSign with rfl | rfl
  · obtain ⟨d, ds, rfl, hd⟩ := hInt.head
    rintro ⟨⟩
    exact absurd hd (by decide)
  · rintro ⟨⟩

theorem Reads.of_spells {lead body tail : List Char} {s' : TokenState} {tree : Tree} (hLead : Lead s lead s')
    (hAllow : tokenValueAllowed s') (hTree : Spells tree body)
    (hDoc : tree.doc? = some doc) (hFits : FitsAt depth doc)
    (hValid : validStringEscapes false (utf8 body ++ utf8 tail)) :
    Reads depth (lead ++ body ++ tail) s stack (utf8 doc.sort.text)
      ⟨utf8 tail, tokenValueEnd s', stack⟩ := by
  rw [validStringEscapes_spells tree body doc hTree hDoc] at hValid
  exact ⟨lead, s', tree, body, tail, doc, rfl, hLead, hAllow, hTree, hDoc, hFits, rfl, rfl, hValid⟩

theorem readNumber_sound {n : Int} (hSpelling : NumberSpelling spelling)
    (h : parseInt (utf8 spelling) = some n) : integer spelling = some n := by
  rw [parseInt_utf8 (numberSpelling_head hSpelling), Option.filter_eq_some_iff] at h
  exact h.1

theorem readValue_sound (fuel : Nat) : ValueSound fuel := by
  induction fuel using Nat.strongRecOn with
  | ind fuel ih =>
    intro text s stack depth out d hs hDepth hValid h
    cases fuel with
    | zero => cases h
    | succ fuel =>
      rw [readValue] at h
      split at h
      · cases h
      rename_i token decoder hToken
      by_cases hScalar : ∀ c, token ≠ .delim c
      · obtain ⟨lead, s', tree, body, tail, rfl, hLead, hAllow, hTree, hOf, rfl, hBody⟩ :=
          scalarToken_sound hs hValid hScalar hToken
        cases token with
        | null =>
          cases h
          cases tree <;> cases hOf
          exact Reads.of_spells hLead hAllow hTree rfl (fitsAt_scalar hDepth trivial rfl) hBody
        | bool b =>
          cases tree <;> cases hOf
          cases b <;> cases h <;>
            exact Reads.of_spells hLead hAllow hTree rfl (fitsAt_scalar hDepth trivial rfl) hBody
        | string value =>
          cases h
          cases tree with
          | str items =>
            have hScan := hBody
            rw [validStringEscapes_string hTree, Bool.and_eq_true] at hScan
            obtain ⟨name, hName⟩ := Option.isSome_iff_exists.mp hScan.1
            have hDoc : (Tree.str items).doc? = some (.str name) := by rw [Tree.doc?, hName]; rfl
            rw [hOf, unquote_literals items name hName, appendString_utf8]
            exact Reads.of_spells hLead hAllow hTree hDoc (fitsAt_scalar hDepth trivial rfl) hBody
          | _ => cases hOf
        | number spelling =>
          cases tree with
          | num digits =>
            dsimp only at h
            rw [hOf] at h
            split at h
            · cases h
            rename_i n hParse
            split at h
            · cases h
            rename_i hRange
            cases h
            have hInteger := readNumber_sound hTree.2 hParse
            have hDoc : (Tree.num digits).doc? = some (.int n) := by rw [Tree.doc?, hInteger]; rfl
            have hSafe : SafeInteger n := ⟨by omega, by omega⟩
            exact Reads.of_spells hLead hAllow hTree hDoc (fitsAt_scalar hDepth hSafe rfl) hBody
          | _ => cases hOf
        | delim c => exact absurd rfl (hScalar c)
      obtain ⟨c, hc⟩ := not_forall_not.mp hScalar
      subst hc
      dsimp only at h
      split at h
      · cases h
      have hBelow : ∀ f < fuel, ValueSound f := fun f hf => ih f (by omega)
      obtain ⟨lead, tail, rfl, hTail, ⟨hOpen, s', hLead, hAllow, rfl⟩ | ⟨hClose, -⟩⟩ :=
        delimToken_sound hValid hToken
      · rcases hOpen with rfl | rfl
        · obtain ⟨trees, body, tail', docs, rfl, hBody, hDocs, hAll, rfl, rfl, hRest⟩ :=
            readArray_sound fuel hBelow tail [] s' stack (depth + 1) out d (by omega) hTail h
          have hDoc : (Tree.arr trees).doc? = some (.arr docs) := by rw [Tree.doc?, hDocs]; rfl
          exact ⟨lead, s', .arr trees, '[' :: body ++ [']'], tail', .arr docs, by simp, hLead, hAllow,
            spells_arr_iff.mpr ⟨body, rfl, hBody⟩, hDoc, (fitsAt_arr (by omega)).mpr hAll, rfl, rfl, hRest⟩
        · obtain ⟨members, body, tail', docs, rfl, hBody, hDocs, hAll, hKeys, rfl, rfl, hRest⟩ :=
            readObject_sound fuel hBelow tail [] s' stack (depth + 1) out d (by omega) hTail
              ⟨by simp, by simp⟩ h
          rw [nil_append, sortMembers_keys] at hKeys
          rw [nil_append, objectOutput_eq hKeys]
          have hDoc : (Tree.obj members).doc? = some (.obj docs) := by rw [Tree.doc?, hDocs]; rfl
          exact ⟨lead, s', .obj members, '\x7b' :: body ++ ['\x7d'], tail', .obj docs, by simp, hLead,
            hAllow, spells_obj_iff.mpr ⟨body, rfl, hBody⟩, hDoc,
            (fitsAt_obj (by omega)).mpr ⟨hKeys, hAll⟩, rfl, rfl, hRest⟩
      · rcases hClose with rfl | rfl <;> cases h

end Proctor.CanonicalJson
