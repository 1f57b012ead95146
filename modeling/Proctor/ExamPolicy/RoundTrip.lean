import Proctor.ExamPolicy.NativeCodec

/-! # Decoding what was encoded

The decoders return every valid policy that they are given in encoded form, up to fields that belong
to another family: a family's encoding writes only the fields it owns. -/
namespace Proctor.ExamPolicy

open Json Proctor.CanonicalJson List NativeFamilyFields Doc
open Option (bind_eq_bind bind_some getD_some map_some some_or)

/-- The family with every field that belongs to another family set to its zero value. -/
def NativeFamilyFields.own (f : NativeFamilyFields) : NativeFamilyFields :=
  if f.id = "process_application" then
    { id := f.id, mode := f.mode, allowedApplicationIDs := f.allowedApplicationIDs }
  else if f.id = "clipboard" then
    { id := f.id, mode := f.mode, strategy := f.strategy
      observeOSClipboardChanges := f.observeOSClipboardChanges }
  else if f.id = "printing" then
    { id := f.id, mode := f.mode, candidatePrintCommands := f.candidatePrintCommands
      monitoredSpooler := f.monitoredSpooler }
  else if f.id = "removable_storage" then
    { id := f.id, mode := f.mode, enabledSubCapabilities := f.enabledSubCapabilities
      allowedStorageFunctionClassIDs := f.allowedStorageFunctionClassIDs }
  else if f.id = "virtualization" then { id := f.id, mode := f.mode, rule := f.rule }
  else if f.id = "network_configuration" then
    { id := f.id, mode := f.mode, enabledSubCapabilities := f.enabledSubCapabilities
      allowedManagedProfileIDs := f.allowedManagedProfileIDs
      allowedAdapterClassIDs := f.allowedAdapterClassIDs
      allowedTunnelClassIDs := f.allowedTunnelClassIDs }
  else if f.id = "camera" || f.id = "microphone" then
    { id := f.id, mode := f.mode, requireReady := f.requireReady
      concurrentUseCheck := f.concurrentUseCheck }
  else { id := f.id, mode := f.mode }

theorem mapM_unmarshalString (ids : List Text) :
    (ids.map str).mapM (fun doc => unmarshalString doc []) = some ids := by
  induction ids with
  | nil => rfl
  | cons id ids ih => rw [map_cons, mapM_cons, ih]; rfl

theorem unmarshal_str (s old : Text) : Codec.string.unmarshal (str s) old = some s := rfl

theorem unmarshal_bool (b old : Bool) : Codec.bool.unmarshal (.bool b) old = some b := rfl

theorem unmarshal_idsDocument (ids old : Option (List Text)) :
    Codec.string.slice.unmarshal (idsDocument ids) old = some ids := by
  cases ids with
  | none => rfl
  | some ids => exact congrArg (Option.map some) (mapM_unmarshalString ids)

theorem NativeFamilyFields.unmarshalStruct_document (f : NativeFamilyFields) :
    unmarshalStruct familyFields f.document {} = some f.own := by
  unfold document members own
  split_ifs
  all_goals simp only [unmarshalStruct, unmarshalMembers, lookupField, familyFields, familyRow, Row.omitempty,
    Row.nil, map_cons, map_nil, Row.headField, Row.tailField, Row.fieldVia, find?_cons, String.toList_inj,
    String.reduceEq, decide_true, decide_false, some_or, bind_eq_bind, bind_some, map_some, unmarshal_str,
    unmarshal_bool, unmarshal_idsDocument, packFamily, unpackFamily]

theorem NativeFamilyFields.own_id (f : NativeFamilyFields) : f.own.id = f.id := by
  unfold own
  split_ifs <;> rfl

theorem NativeFamilyFields.own_of_id {f : NativeFamilyFields} (h : f.id ∈ nativeFamilies) :
    f.own.document = f.document ∧ f.own.validate = f.validate := by
  simp only [nativeFamilies, mem_cons, not_mem_nil, or_false] at h
  rcases h with h | h | h | h | h | h | h | h | h | h
  all_goals
    constructor
    · simp only [document, members, own, h,
        String.toList_inj, String.reduceEq, decide_false, decide_true, Bool.or_false, Bool.or_true,
        Bool.false_eq_true, if_true, if_false]
    · simp only [validate, validateClipboard, validatePrinting, validateCapture,
        own, h, String.toList_inj, String.reduceEq, decide_false, decide_true,
        Bool.or_false, Bool.or_true, Bool.false_eq_true, if_true, if_false]

theorem NativeFamilyFields.unmarshalJSON_document {f : NativeFamilyFields}
    (hId : f.id ∈ nativeFamilies) (hValid : f.validate)
    (hSize : size f.document.text ≤ examPolicySetMaxBytes) :
    unmarshalJSON (utf8 f.document.text) = some f.own := by
  obtain ⟨hDocument, hValidate⟩ := own_of_id hId
  have hDoc := isDocument_text f.document_conforms.1 (le_trans f.document_conforms.2 (by decide))
  refine (unmarshalJSON_eq_some_iff hDoc f.own).mpr
    ⟨hSize, f.unmarshalStruct_document, hValidate.trans hValid, ?_⟩
  rw [hDocument, f.document_sort]

theorem size_le_separated {items : List (List Char)} {item : List Char} (h : item ∈ items) :
    size item ≤ size (separated items) := by
  have hSum : size item ≤ (items.map size).sum := by
    induction items with
    | nil => cases h
    | cons head items ih =>
      rw [map_cons, sum_cons]
      rcases mem_cons.mp h with rfl | h
      · omega
      · have := ih h
        omega
  rw [size_separated]
  omega

theorem size_element_le {elements : List Doc} {e : Doc} (h : e ∈ elements) :
    size e.text ≤ size (arr elements).text := by
  have hItem := size_le_separated (mem_map_of_mem (f := text) h)
  rw [← elementTexts_eq_map] at hItem
  simp only [text, cons_append, size_cons, size_append]
  omega

theorem size_member_le {members : List (Text × Doc)} {m : Text × Doc} (h : m ∈ members) :
    size m.2.text ≤ size (obj members).text := by
  have hItem := size_le_separated (mem_map_of_mem (f := memberText) h)
  rw [← memberTexts_eq_map] at hItem
  have hMember : size m.2.text ≤ size (memberText m) := by
    simp only [memberText, size_append, size_cons]
    omega
  simp only [text, cons_append, size_cons, size_append]
  omega

variable {families : List NativeFamilyFields}

theorem mapM_unmarshalJSON (h : ∀ f ∈ families, f.id ∈ nativeFamilies ∧ f.validate ∧
      size f.document.text ≤ examPolicySetMaxBytes) : (families.map document).mapM
        (fun doc => unmarshalJSON (utf8 doc.text)) =
      some (families.map own) := by
  induction families with
  | nil => rfl
  | cons f families ih =>
    obtain ⟨hId, hValid, hSize⟩ := h f (by simp)
    rw [map_cons, mapM_cons, ih fun g hg => h g (by simp [hg]),
      unmarshalJSON_document hId hValid hSize]
    rfl

def NativeSecurityPolicy.own (p : NativeSecurityPolicy) : NativeSecurityPolicy :=
  { p with families := p.families.map fun families => families.map NativeFamilyFields.own }

variable {p : NativeSecurityPolicy}

theorem NativeSecurityPolicy.families_of_validate
    (h : p.validate) : ∃ families, p.families = some families ∧
      families.map (·.id) = nativeFamilies ∧ ∀ f ∈ families, f.validate := by
  simp only [NativeSecurityPolicy.validate, Bool.and_eq_true, decide_eq_true_eq,
    all_eq_true] at h
  obtain ⟨⟨-, hIds⟩, hAll⟩ := h
  cases hFams : p.families with
  | none =>
    rw [hFams] at hIds
    exact absurd hIds (by decide)
  | some families =>
    rw [hFams] at hIds hAll
    exact ⟨families, rfl, hIds, hAll⟩

theorem NativeSecurityPolicy.document_sort (h : p.families = some families) :
    p.document.sort = .obj [("baseline_id", .str p.baselineID),
      ("families", .arr (families.map NativeFamilyFields.document)),
      ("registry_digest", .str p.registryDigest)] := by
  have hArr : (arr (families.map NativeFamilyFields.document)).sort =
      .arr (families.map NativeFamilyFields.document) := by
    rw [sort, sortElements_eq_map, map_map]
    exact congrArg arr (map_congr_left fun f _ => f.document_sort)
  have hPerm : ([("baseline_id".toList, str p.baselineID),
      ("families".toList, arr (families.map NativeFamilyFields.document))] ++
      [("registry_digest".toList, str p.registryDigest)]).Perm
      ([("registry_digest".toList, str p.registryDigest)] ++
        [("baseline_id".toList, str p.baselineID),
          ("families".toList, arr (families.map NativeFamilyFields.document))]) :=
    perm_append_comm
  have hSort := sort_obj hPerm (by
    simp only [cons_append, nil_append, map_cons, map_nil]
    decide)
  simp only [cons_append, nil_append, map_cons, map_nil, hArr] at hSort
  rw [NativeSecurityPolicy.document, h]
  exact hSort

theorem NativeSecurityPolicy.document_conforms (h : p.validate) :
    Conforms p.document ∧ p.document.depth ≤ 4 := by
  obtain ⟨families, hFams, -, -⟩ := NativeSecurityPolicy.families_of_validate h
  rw [NativeSecurityPolicy.document, hFams]
  constructor
  · rw [Conforms, every_obj]
    refine ⟨by simp only [map_cons, map_nil]; decide, ?_⟩
    simp only [forall_mem_cons, not_mem_nil, false_imp_iff, implies_true, and_true]
    refine ⟨trivial, trivial, ?_⟩
    rw [every_arr]
    intro e he
    obtain ⟨f, -, rfl⟩ := mem_map.mp he
    exact f.document_conforms.1
  · rw [depth, Nat.add_le_add_iff_right (n := 1) (k := 3), membersDepth_le_iff]
    simp only [forall_mem_cons, not_mem_nil, false_imp_iff, implies_true, and_true]
    refine ⟨Nat.zero_le 3, Nat.zero_le 3, ?_⟩
    rw [depth, Nat.add_le_add_iff_right (n := 1) (k := 2), elementsDepth_le_iff]
    intro e he
    obtain ⟨f, -, rfl⟩ := mem_map.mp he
    exact f.document_conforms.2

theorem NativeSecurityPolicy.own_validate (h : p.validate = true) : p.own.validate := by
  obtain ⟨families, hFams, hIds, hAll⟩ := NativeSecurityPolicy.families_of_validate h
  have hOwnIds : (families.map NativeFamilyFields.own).map (·.id) = nativeFamilies := by
    rw [map_map, ← hIds]
    exact map_congr_left fun f _ => f.own_id
  simp only [NativeSecurityPolicy.validate, Bool.and_eq_true, decide_eq_true_eq, all_eq_true,
    hFams, getD_some] at h
  simp only [NativeSecurityPolicy.validate, NativeSecurityPolicy.own, Bool.and_eq_true,
    decide_eq_true_eq, all_eq_true, hFams, map_some, getD_some]
  refine ⟨⟨h.1.1, hOwnIds⟩, fun g hg => ?_⟩
  obtain ⟨f, hf, rfl⟩ := mem_map.mp hg
  exact (NativeFamilyFields.own_of_id (hIds ▸ mem_map_of_mem hf)).2.trans (hAll f hf)

theorem NativeSecurityPolicy.unmarshalStruct_document (hFams : p.families = some families)
    (h : ∀ f ∈ families, f.id ∈ nativeFamilies ∧ f.validate ∧
      size f.document.text ≤ examPolicySetMaxBytes) :
    unmarshalStruct securityFields (.obj [("baseline_id", .str p.baselineID),
      ("families", .arr (families.map NativeFamilyFields.document)),
      ("registry_digest", .str p.registryDigest)]) {} = some p.own := by
  simp only [unmarshalStruct, unmarshalMembers, lookupField, securityFields, find?_structField_own,
    find?_structField_other, structField_store, ne_eq, String.reduceEq, not_false_eq_true, some_or,
    bind_eq_bind, bind_some, map_some, unmarshalString, unmarshalSlice,
    mapM_unmarshalJSON h, NativeSecurityPolicy.own, hFams]

theorem NativeSecurityPolicy.unmarshalJSON_document
    (hValid : p.validate) (hSize : size p.document.sort.text ≤ examPolicySetMaxBytes) :
    NativeSecurityPolicy.unmarshalJSON (utf8 p.document.sort.text) = some p.own := by
  obtain ⟨hConf, hDepth⟩ := NativeSecurityPolicy.document_conforms hValid
  obtain ⟨families, hFams, hIds, hAll⟩ := NativeSecurityPolicy.families_of_validate hValid
  have hSort := NativeSecurityPolicy.document_sort hFams
  have hDoc := isDocument_text (conforms_sort hConf)
    (le_trans (p.document.depth_sort_le 4 hDepth) (by decide))
  have hFamilySize : ∀ f ∈ families, size f.document.text ≤ examPolicySetMaxBytes := by
    intro f hf
    have hElem := size_element_le (mem_map_of_mem (f := NativeFamilyFields.document) hf)
    have hMember : ("families".toList, arr (families.map NativeFamilyFields.document)) ∈
        [("baseline_id".toList, str p.baselineID),
          ("families".toList, arr (families.map NativeFamilyFields.document)),
          ("registry_digest".toList, str p.registryDigest)] :=
      mem_cons_of_mem _ mem_cons_self
    rw [hSort] at hSize
    exact le_trans hElem (le_trans (size_member_le hMember) hSize)
  have hStruct := NativeSecurityPolicy.unmarshalStruct_document hFams fun f hf =>
    ⟨hIds ▸ mem_map_of_mem hf, hAll f hf, hFamilySize f hf⟩
  rw [← hSort] at hStruct
  have hNames : memberNames p.document.sort =
      some ["baseline_id".toList, "families".toList, "registry_digest".toList] := by
    rfl
  refine (readDocument_of_isDocument hDoc).mpr ⟨hSize, ?_⟩
  simp only [hStruct, NativeSecurityPolicy.own_validate hValid, hNames, bind_eq_bind, bind_some,
    Bool.not_true, Bool.false_eq_true, if_false]
  rw [if_pos (by decide)]

end Proctor.ExamPolicy
