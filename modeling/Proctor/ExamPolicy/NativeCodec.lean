import Proctor.CanonicalJson.Documents
import Proctor.ExamPolicy.ExamPolicy

/-! # What the native policy decoders accept

A document that a decoder accepts denotes the value of what the decoder returns: the family decoder
compares the two encodings, and the policy decoder counts the members. -/
namespace Proctor.ExamPolicy

open Json Proctor.CanonicalJson List NativeFamilyFields Doc
open Option (bind_eq_bind bind_eq_some_iff bind_none bind_some some)

theorem validateExamDocumentJSON_eq_ok_iff (data : Bytes) :
    validateExamDocumentJSON data = .ok () ↔ ∃ doc, IsDocument data doc := by
  constructor
  · intro h
    cases hCanonical : canonicalize data data.length with
    | error e => rw [validateExamDocumentJSON, hCanonical] at h; cases h
    | ok out =>
      obtain ⟨-, doc, hDoc, -⟩ := (canonicalize_eq_ok_iff data data.length out).mp hCanonical
      exact ⟨doc, hDoc⟩
  · rintro ⟨doc, hDoc⟩
    rw [validateExamDocumentJSON, hDoc.canonicalize]
    rfl

theorem readDocument_eq_some_iff {α : Type} {data : Bytes} {maximum : Nat} {read : Doc → Option α} {v : α} :
    readDocument data maximum read = some v ↔
      data.length ≤ maximum ∧ ∃ doc, IsDocument data doc ∧ read doc = some v := by
  by_cases hLen : maximum < data.length
  · simp [readDocument, hLen, not_le.mpr hLen]
  rw [readDocument, if_neg hLen, and_iff_right (not_lt.mp hLen)]
  cases hCheck : validateExamDocumentJSON data with
  | error fault =>
    refine ⟨nofun, fun ⟨doc, hDoc, _⟩ => ?_⟩
    rw [(validateExamDocumentJSON_eq_ok_iff data).mpr ⟨doc, hDoc⟩] at hCheck
    cases hCheck
  | ok =>
    obtain ⟨doc, hDoc⟩ := (validateExamDocumentJSON_eq_ok_iff data).mp hCheck
    obtain ⟨tail, hDec, -⟩ := hDoc.decode
    rw [hDec]
    refine ⟨fun hRead => ⟨doc, hDoc, hRead⟩, ?_⟩
    rintro ⟨other, hOther, hRead⟩
    exact hOther.unique hDoc ▸ hRead

variable {doc : Doc}

theorem readDocument_of_isDocument {α : Type} {data : Bytes} {maximum : Nat} {read : Doc → Option α} {v : α}
    (hDoc : IsDocument data doc) :
    readDocument data maximum read = some v ↔ data.length ≤ maximum ∧ read doc = some v := by
  rw [readDocument_eq_some_iff]
  refine and_congr_right' ⟨?_, fun hRead => ⟨doc, hDoc, hRead⟩⟩
  rintro ⟨other, hOther, hRead⟩
  exact hOther.unique hDoc ▸ hRead

theorem encodeCanonicalExamDocument_eq_ok (h : Conforms doc) (hDepth : doc.depth ≤ maxDepth) :
    encodeCanonicalExamDocument doc = .ok (utf8 doc.sort.text) :=
  (isDocument_marshal h hDepth).canonicalize

/-- A scalar or a list of strings: the values of the members of a family. -/
def Flat (doc : Doc) : Prop := doc.sort = doc ∧ Conforms doc ∧ doc.depth ≤ 1

theorem flat_str (s : Text) : Flat (.str s) := ⟨rfl, trivial, Nat.zero_le 1⟩

theorem flat_bool (b : Bool) : Flat (.bool b) := ⟨rfl, trivial, Nat.zero_le 1⟩

theorem flat_idsDocument (ids : Option (List Text)) : Flat (idsDocument ids) := by
  cases ids with
  | none => exact ⟨rfl, trivial, Nat.zero_le 1⟩
  | some ids =>
    refine ⟨?_, ?_, ?_⟩
    · rw [idsDocument, sort, sortElements_eq_map, map_map]
      rfl
    · rw [idsDocument, Conforms, every_arr]
      intro e he
      obtain ⟨id, -, rfl⟩ := mem_map.mp he
      exact trivial
    · rw [idsDocument, depth, Nat.add_le_add_iff_right, elementsDepth_le_iff]
      intro e he
      obtain ⟨id, -, rfl⟩ := mem_map.mp he
      exact le_rfl

section

variable (f : NativeFamilyFields)
include f

theorem NativeFamilyFields.members_flat : ∀ m ∈ f.members, Flat m.2 := by
  unfold members
  split_ifs
  all_goals
    simp only [forall_mem_cons, not_mem_nil, false_imp_iff, implies_true,
      flat_str, flat_bool, flat_idsDocument, and_self]

theorem NativeFamilyFields.members_names :
    AsciiDistinct (f.members.map Prod.fst) ∧ (f.members.map fun m => utf8 m.1).Pairwise (· < ·) := by
  unfold members
  split_ifs
  all_goals simp only [map_cons, map_nil]; decide

theorem NativeFamilyFields.document_sort : f.document.sort = f.document := by
  have hSort := sort_obj (List.Perm.refl f.members) f.members_names.2
  have hSame : f.members.map (fun m => (m.1, m.2.sort)) = f.members := by
    conv_rhs => rw [← map_id f.members]
    refine map_congr_left fun m hm => ?_
    rw [(f.members_flat m hm).1]
    rfl
  rw [document, hSort, hSame]

theorem NativeFamilyFields.document_conforms :
    Conforms f.document ∧ f.document.depth ≤ 2 := by
  constructor
  · rw [document, Conforms, every_obj]
    exact ⟨f.members_names.1, fun m hm => (f.members_flat m hm).2.1⟩
  · rw [document, depth, Nat.add_le_add_iff_right, membersDepth_le_iff]
    exact fun m hm => (f.members_flat m hm).2.2

end

variable {document : Bytes}

/-- On a document that passes the strict reader, the family decoder accepts exactly when the decoded
fields are valid and are encoded as the document is. -/
theorem NativeFamilyFields.unmarshalJSON_eq_some_iff
    (hDoc : IsDocument document doc) (f : NativeFamilyFields) :
    unmarshalJSON document = some f ↔
      document.length ≤ examPolicySetMaxBytes ∧ unmarshalStruct familyFields doc {} = some f ∧
        f.validate ∧ doc.sort = f.document := by
  obtain ⟨hConf, hDepth⟩ := hDoc.conforms
  have hRaw := encodeCanonicalExamDocument_eq_ok (conforms_sort hConf)
    (doc.depth_sort_le _ hDepth)
  rw [sort_sort hConf.distinct] at hRaw
  have hEnc (g : NativeFamilyFields) : encodeCanonicalExamDocument g.document =
      .ok (utf8 g.document.text) := by
    rw [encodeCanonicalExamDocument_eq_ok g.document_conforms.1
      (le_trans g.document_conforms.2 (by decide)), g.document_sort]
  have hSpelled (g : NativeFamilyFields) : utf8 doc.sort.text = utf8 g.document.text ↔
      doc.sort = g.document :=
    ⟨fun h => text_injective (utf8_injective h), fun h => by rw [h]⟩
  refine (readDocument_of_isDocument hDoc).trans (and_congr_right' ?_)
  simp only [hRaw, hEnc, Except.toOption, bind_eq_bind, bind_some, bind_none, bind_eq_some_iff, hSpelled,
    Bool.not_eq_true', Option.ite_none_left_eq_some, Bool.not_eq_false, Option.ite_none_right_eq_some,
    some.injEq]
  constructor
  · rintro ⟨g, hg, hValid, hSame, rfl⟩
    exact ⟨hg, hValid, hSame⟩
  · rintro ⟨hg, hValid, hSame⟩
    exact ⟨f, hg, hValid, hSame, rfl⟩

theorem NativeFamilyFields.value_of_unmarshalJSON
    (hDoc : IsDocument document doc) {f : NativeFamilyFields}
    (h : unmarshalJSON document = some f) : doc.value = f.document.value := by
  obtain ⟨-, -, -, hSort⟩ := (unmarshalJSON_eq_some_iff hDoc f).mp h
  rw [← hSort, value_sort doc hDoc.conforms.1.distinct]

variable {elements : List Doc} {p : NativeSecurityPolicy}

theorem conforms_element (h : Conforms (.arr elements))
    (hDepth : (arr elements).depth ≤ maxDepth) {e : Doc} (he : e ∈ elements) :
    IsDocument (utf8 e.text) e := by
  rw [Conforms, every_arr] at h
  refine isDocument_text (h e he) ?_
  rw [depth] at hDepth
  exact (elementsDepth_le_iff elements maxDepth).mp (by omega) e he

variable {members : List (Text × Doc)}

theorem conforms_member (h : Conforms (.obj members))
    (hDepth : (obj members).depth ≤ maxDepth) {m : Text × Doc} (hm : m ∈ members) :
    IsDocument (utf8 m.2.text) m.2 := by
  rw [Conforms, every_obj] at h
  refine isDocument_text (h.2 m hm) ?_
  rw [depth] at hDepth
  exact (membersDepth_le_iff members maxDepth).mp (by omega) m hm

theorem mem_of_lookup {name : Text} (h : members.lookup name = some doc) : (name, doc) ∈ members := by
  obtain ⟨before, after, hSplit, -⟩ := lookup_eq_some_iff.mp h
  rw [hSplit]
  simp

theorem families_value {families : List NativeFamilyFields}
    (hDocs : ∀ e ∈ elements, IsDocument (utf8 e.text) e)
    (h : elements.mapM (fun doc => unmarshalJSON (utf8 doc.text)) = some families) :
    elements.map value = (families.map NativeFamilyFields.document).map value := by
  induction elements generalizing families with
  | nil => cases h; rfl
  | cons element elements ih =>
    rw [mapM_cons] at h
    simp only [bind_eq_bind, bind_eq_some_iff] at h
    obtain ⟨f, hf, rest, hRest, hEq⟩ := h
    cases hEq
    rw [map_cons, ih (fun e he => hDocs e (by simp [he])) hRest,
      value_of_unmarshalJSON (hDocs element (by simp)) hf]
    rfl

theorem lookup_of_key {name : Text}
    (h : name ∈ members.map Prod.fst) : ∃ doc, members.lookup name = some doc := by
  rw [← Option.isSome_iff_exists, Option.isSome_iff_ne_none]
  intro hNone
  obtain ⟨m, hm, hKey⟩ := mem_map.mp h
  have hne := lookup_eq_none_iff.mp hNone m hm
  rw [bne_iff_ne] at hne
  exact hne hKey.symm

theorem str_of_unmarshalString {s : Text} (h : unmarshalString doc [] = some s)
    (hne : s ≠ []) : doc = .str s := by
  cases doc with
  | null => exact absurd (some.inj h).symm hne
  | str t => rw [some.inj h]
  | _ => cases h

def securityNames : List Text :=
  ["registry_digest", "baseline_id", "families"]

theorem NativeSecurityPolicy.unmarshalJSON_eq_some (hDoc : IsDocument document doc)
    (h : NativeSecurityPolicy.unmarshalJSON document = some p) :
    ∃ members, doc = .obj members ∧ unmarshalMembers securityFields members {} = some p ∧
      p.validate ∧ (members.map Prod.fst).Perm securityNames := by
  obtain ⟨-, h⟩ := (readDocument_of_isDocument hDoc).mp h
  simp only [bind_eq_bind, bind_none, bind_eq_some_iff, Option.ite_none_left_eq_some, Option.ite_none_right_eq_some,
    Bool.not_eq_true', Bool.not_eq_false, Bool.and_eq_true, decide_eq_true_eq,
    contains_iff_mem, some.injEq] at h
  obtain ⟨q, hStruct, hValid, names, hNames, ⟨⟨⟨hThree, hRegistry⟩, hBaseline⟩, hFams⟩, rfl⟩ := h
  cases doc with
  | null =>
    cases hNames
    cases hThree
  | obj members =>
    cases hNames
    have hKeys := hDoc.conforms.1
    refine ⟨members, rfl, hStruct, hValid, List.Perm.symm ?_⟩
    refine List.Subperm.perm_of_length_le (subperm_of_subset (by decide) ?_) (le_of_eq hThree)
    simp only [securityNames, cons_subset, nil_subset, and_true]
    exact ⟨hRegistry, hBaseline, hFams⟩
  | _ => cases hNames

theorem registry_owned : Owns securityFields "registry_digest" unmarshalString (·.registryDigest) :=
  .own rfl <| .other nofun rfl <| .other nofun rfl .nil

theorem baseline_owned : Owns securityFields "baseline_id" unmarshalString (·.baselineID) :=
  .other nofun rfl <| .own rfl <| .other nofun rfl .nil

theorem families_owned : Owns securityFields "families"
    (unmarshalSlice {} fun doc _ => unmarshalJSON (utf8 doc.text)) (·.families) :=
  .other nofun rfl <| .other nofun rfl <| .own rfl .nil

theorem NativeSecurityPolicy.value_of_unmarshalJSON (hDoc : IsDocument document doc)
    (h : NativeSecurityPolicy.unmarshalJSON document = some p) : doc.value = p.document.value := by
  obtain ⟨members, rfl, hMems, hValid, hPerm⟩ := unmarshalJSON_eq_some hDoc h
  obtain ⟨hConf, hDepth⟩ := hDoc.conforms
  have hNodup : (members.map Prod.fst).Nodup := hPerm.nodup_iff.mpr (by decide)
  have hExact : ∀ m ∈ members, ∃ f ∈ securityFields, f.name = m.1 := by
    intro m hm
    have hName : m.1 ∈ securityNames := hPerm.mem_iff.mp (mem_map_of_mem hm)
    have hFields : securityNames = securityFields.map StructField.name := rfl
    exact mem_map.mp hName
  have hLookup (name : Text) (hName : name ∈ securityNames) : ∃ doc, members.lookup name = some doc :=
    lookup_of_key (hPerm.mem_iff.mpr hName)
  simp only [NativeSecurityPolicy.validate, Bool.and_eq_true, decide_eq_true_eq] at hValid
  obtain ⟨⟨⟨hDigest, hBaseline⟩, hIDs⟩, -⟩ := hValid
  obtain ⟨digest, hDigestDoc⟩ := hLookup "registry_digest" (by simp [securityNames])
  obtain ⟨baseline, hBaselineDoc⟩ := hLookup "baseline_id" (by simp [securityNames])
  obtain ⟨families, hFamiliesDoc⟩ := hLookup "families" (by simp [securityNames])
  have hDigestStr := str_of_unmarshalString
    ((registry_owned.component hExact hNodup hMems).2 digest hDigestDoc) (by rw [hDigest]; decide)
  have hBaselineStr := str_of_unmarshalString
    ((baseline_owned.component hExact hNodup hMems).2 baseline hBaselineDoc)
    (by rw [hBaseline]; decide)
  have hFams := (families_owned.component hExact hNodup hMems).2 families hFamiliesDoc
  obtain ⟨elements, list, rfl, hList, hSome⟩ : ∃ elements list, families = .arr elements ∧
      elements.mapM (fun doc => NativeFamilyFields.unmarshalJSON (utf8 doc.text)) = some list ∧
        p.families = some list := by
    cases families with
    | null =>
      rw [← some.inj hFams] at hIDs
      exact absurd hIDs (by decide)
    | arr elements =>
      obtain ⟨list, hList, hSome⟩ := Option.map_eq_some_iff.mp hFams
      exact ⟨elements, list, rfl, hList, hSome.symm⟩
    | _ => cases hFams
  have hArr := conforms_member hConf hDepth (mem_of_lookup hFamiliesDoc)
  have hElems := families_value (fun e he => conforms_element hArr.conforms.1 hArr.conforms.2 he)
    hList
  refine congrArg Value.obj (memberValues_eq_expected (fun m hm => ?_) ?_)
  · exact hPerm.mem_iff.mp (mem_map_of_mem hm)
  simp only [forall_mem_cons, not_mem_nil, false_imp_iff, implies_true, and_true]
  refine ⟨⟨digest, hDigestDoc, by rw [hDigestStr]⟩, ⟨baseline, hBaselineDoc, by rw [hBaselineStr]⟩,
    ⟨_, hFamiliesDoc, ?_⟩⟩
  rw [hSome, value, value, elementValues_eq_map, elementValues_eq_map, hElems]

end Proctor.ExamPolicy
