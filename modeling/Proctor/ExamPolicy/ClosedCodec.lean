import Proctor.ExamPolicy.ExactNames

/-! # When the exam policy codec is closed

`examPolicyCodec_closed_iff` says for every accepted document when its canonical form is the encoding
of what it decodes to, and for every valid policy when decoding its encoding returns it. -/
namespace Proctor.ExamPolicy

open Json Proctor.CanonicalJson List ExamPolicySet
open Option (bind_eq_bind bind_some map_some some_or)

variable {doc : Doc} {p : ExamPolicySet}

theorem namesWithin_of_value_eq {names : List Text} (hDoc : Conforms doc)
    {expected : List (Text × Doc)} (hExpected : ∀ e ∈ expected, e.1 ∈ names)
    (h : doc.value = (Doc.obj expected).value) : namesWithin names doc := by
  cases doc with
  | obj members =>
    simp only [namesWithin, all_eq_true, decide_eq_true_eq]
    intro m hm
    obtain ⟨e, he, -⟩ := member_of_value_eq (keys_nodup hDoc) h hm
    exact hExpected (m.1, e) he
  | _ => rfl

theorem exactNames_of_value (hDoc : Conforms doc)
    (h : doc.value = p.document.value) : exactNames doc := by
  cases doc with
  | obj members =>
    rw [exactNames_obj]
    intro m hm
    obtain ⟨e, he, hValue⟩ := member_of_value_eq (keys_nodup hDoc) h hm
    have hMember : Conforms m.2 := by
      rw [Conforms, every_obj] at hDoc
      exact hDoc.2 m hm
    simp only [mem_cons, Prod.mk.injEq, not_mem_nil, or_false] at he
    rcases he with ⟨hName, rfl⟩ | ⟨hName, rfl⟩ | ⟨hName, rfl⟩
    · rw [hName]
      exact ⟨by decide, fun h => absurd h (by decide), fun h => absurd h (by decide)⟩
    · rw [hName]
      refine ⟨by decide, fun _ => ?_, fun h => absurd h (by decide)⟩
      exact namesWithin_of_value_eq hMember (by simp [connectionNames]) hValue
    · rw [hName]
      refine ⟨by decide, fun h => absurd h (by decide), fun _ => ?_⟩
      exact namesWithin_of_value_eq hMember (by simp [focusNames]) hValue
  | _ => cases h

/-- The canonical form of an accepted document is the encoding of the decoded policy exactly when
the names are exact. -/
theorem canonical_eq_encode_iff {data : Bytes} (h : decodeExamPolicySet data = .ok p) :
    (∃ bytes, encodeExamPolicySet p = .ok bytes ∧ canonicalize data data.length = .ok bytes) ↔
      exactDocumentNames data := by
  obtain ⟨doc, wire, hDoc, hLen, hWire, hPol⟩ := (decodeExamPolicySet_eq_ok_iff data p).mp h
  obtain ⟨-, -, -, -, -, -, hValid⟩ := (PolicyWire.policy_eq_ok_iff wire p).mp hPol
  obtain ⟨tail, hDec, -⟩ := hDoc.decode
  have hNames : exactDocumentNames data = exactNames doc := by rw [exactDocumentNames, hDec]
  have hDist := hDoc.conforms.1.distinct
  have hDist' := (document_conforms hValid).1.distinct
  rw [hDoc.canonicalize, hNames]
  constructor
  · rintro ⟨bytes, hEnc, hSame⟩
    obtain ⟨-, -, rfl⟩ := (encodeExamPolicySet_eq_ok_iff p bytes).mp hEnc
    have hSort := Doc.text_injective (utf8_injective (Except.ok.inj hSame))
    exact exactNames_of_value hDoc.conforms.1
      ((Doc.value_eq_iff_sort_eq hDist hDist').mpr hSort)
  · intro hExact
    have hValue := value_of_exactNames hDoc hWire hPol hExact
    have hSort := (Doc.value_eq_iff_sort_eq hDist hDist').mp hValue
    refine ⟨utf8 p.document.sort.text, (encodeExamPolicySet_eq_ok_iff p _).mpr ⟨hValid, ?_, rfl⟩,
      by rw [hSort]⟩
    rw [← hSort]
    exact le_trans hDoc.size_le hLen

theorem unmarshalInt_int {n : Int} (hLow : 0 ≤ n) (hHigh : n ≤ 14400000) (old : Int) :
    unmarshalInt (.int n) old = some n := by
  rw [unmarshalInt, if_pos (by omega)]

theorem unmarshalStruct_connection (c : ConnectionLossPolicy) :
    unmarshalStruct connectionFields c.document {} = some ⟨some c.outcome⟩ := by
  simp only [ConnectionLossPolicy.document, unmarshalStruct, unmarshalMembers, lookupField,
    connectionFields, find?_structField_own, structField_store, some_or, bind_eq_bind,
    bind_some, unmarshalPointer, unmarshalString, map_some]

theorem unmarshalStruct_focus (h : p.validate = .ok ()) :
    unmarshalStruct focusFields p.focusLoss.document.sort {} =
      some ⟨some p.focusLoss.enabled, some (p.focusLoss.minimumDuration.tdiv millisecond),
        some p.focusLoss.incidentCount, some (p.focusLoss.window.tdiv millisecond),
        some p.focusLoss.outcome⟩ := by
  obtain ⟨-, -, hMin, hWin⟩ := milliseconds h
  obtain ⟨-, -, -, -, -, hCount, -, -⟩ := (validate_eq_ok_iff p).mp h
  have hMinimumInt := unmarshalInt_int (n := p.focusLoss.minimumDuration.tdiv millisecond)
    (by omega) (by omega)
  have hCountInt := unmarshalInt_int (n := p.focusLoss.incidentCount) (by omega) (by omega)
  have hWindowInt := unmarshalInt_int (n := p.focusLoss.window.tdiv millisecond)
    (by omega) (by omega)
  simp only [FocusLossPolicy.document_sort, unmarshalStruct, unmarshalMembers, lookupField,
    focusFields, find?_structField_own, find?_structField_other, structField_store, ne_eq,
    String.reduceEq, not_false_eq_true, some_or, bind_eq_bind, bind_some, unmarshalPointer,
    unmarshalString, unmarshalBool, hMinimumInt, hCountInt, hWindowInt, map_some]

def ExamPolicySet.wire (p : ExamPolicySet) : PolicyWire where
  native := some p.native.own
  connectionLoss := some ⟨some p.connectionLoss.outcome⟩
  focusLoss := some ⟨some p.focusLoss.enabled, some (p.focusLoss.minimumDuration.tdiv millisecond),
    some p.focusLoss.incidentCount, some (p.focusLoss.window.tdiv millisecond),
    some p.focusLoss.outcome⟩

theorem unmarshalStruct_policy (h : p.validate = .ok ())
    (hSize : size p.document.sort.text ≤ examPolicySetMaxBytes) :
    unmarshalStruct policyFields p.document.sort {} = some p.wire := by
  obtain ⟨hNative, -⟩ := (validate_eq_ok_iff p).mp h
  obtain ⟨families, hFams, -, -⟩ := NativeSecurityPolicy.families_of_validate hNative
  have hNativeNe : p.native.document.sort ≠ .null := by
    nofun
  have hNativeSize : size p.native.document.sort.text ≤ examPolicySetMaxBytes := by
    have hMember : ("native".toList, p.native.document.sort) ∈
        [("connection_loss".toList, p.connectionLoss.document),
          ("focus_loss".toList, p.focusLoss.document.sort),
          ("native".toList, p.native.document.sort)] := by
      exact mem_cons_of_mem _ (mem_cons_of_mem _ mem_cons_self)
    exact le_trans (size_member_le hMember) hSize
  have hConnectionNe : p.connectionLoss.document ≠ .null := nofun
  have hFocusNe : p.focusLoss.document.sort ≠ .null := by
    nofun
  rw [p.document_sort, unmarshalStruct]
  simp only [unmarshalMembers, lookupField, policyFields, find?_structField_own, find?_structField_other,
    structField_store, ne_eq, String.reduceEq, not_false_eq_true, some_or, bind_eq_bind, bind_some,
    unmarshalPointer_of_ne_null hNativeNe, unmarshalPointer_of_ne_null hConnectionNe,
    unmarshalPointer_of_ne_null hFocusNe, Option.getD_none, unmarshalStruct_connection,
    unmarshalStruct_focus h, NativeSecurityPolicy.unmarshalJSON_document hNative hNativeSize, map_some,
    wire]

theorem decode_encode (h : p.validate = .ok ())
    (hSize : size p.document.sort.text ≤ examPolicySetMaxBytes) :
    decodeExamPolicySet (utf8 p.document.sort.text) = .ok { p with native := p.native.own } := by
  obtain ⟨hConf, hDepth⟩ := document_conforms h
  obtain ⟨hMin, hWin, hMinimumBounds, hWindowBounds⟩ := milliseconds h
  obtain ⟨hNative, hWhole, hSchema, hRest⟩ := (validate_eq_ok_iff p).mp h
  refine (decodeExamPolicySet_eq_ok_iff _ _).mpr ⟨p.document.sort, p.wire,
    isDocument_text (conforms_sort hConf) (le_trans (p.document.depth_sort_le 5 hDepth) (by decide)),
    hSize, unmarshalStruct_policy h hSize, ?_⟩
  refine (PolicyWire.policy_eq_ok_iff _ _).mpr ⟨_, _, _, rfl, ?_, ?_, ?_⟩
  · exact ⟨hMinimumBounds.1, hMinimumBounds.2, hWindowBounds.1, hWindowBounds.2⟩
  · rw [policyOf, hMin, hWin, ← hSchema]
  · exact (validate_eq_ok_iff _).mpr
      ⟨NativeSecurityPolicy.own_validate hNative, hWhole, hSchema, hRest⟩

theorem decode_encode_iff (h : p.validate = .ok ()) :
    (∃ bytes, encodeExamPolicySet p = .ok bytes ∧ decodeExamPolicySet bytes = .ok p) ↔
      size p.document.sort.text ≤ examPolicySetMaxBytes ∧ p.native.own = p.native := by
  constructor
  · rintro ⟨bytes, hEnc, hDec⟩
    obtain ⟨-, hSize, rfl⟩ := (encodeExamPolicySet_eq_ok_iff p bytes).mp hEnc
    rw [decode_encode h hSize] at hDec
    exact ⟨hSize, congrArg native (Except.ok.inj hDec)⟩
  · rintro ⟨hSize, hOwn⟩
    refine ⟨_, (encodeExamPolicySet_eq_ok_iff p _).mpr ⟨h, hSize, rfl⟩, ?_⟩
    rw [decode_encode h hSize, hOwn]

/-- An encoded policy with one more member, whose name differs from a field's name in case. -/
def aliasDocument (p : ExamPolicySet) : Doc :=
  match p.document.sort with
  | .obj members => .obj (("Connection_Loss", .null) :: members)
  | doc => doc

theorem aliasDocument_eq (p : ExamPolicySet) : aliasDocument p =
    .obj [("Connection_Loss", .null), ("connection_loss", p.connectionLoss.document),
      ("focus_loss", p.focusLoss.document.sort), ("native", p.native.document.sort)] := by
  rw [aliasDocument, p.document_sort]

theorem aliasDocument_conforms (h : p.validate = .ok ()) :
    Conforms (aliasDocument p) ∧ (aliasDocument p).depth ≤ 5 := by
  obtain ⟨hConf, hDepth⟩ := document_conforms h
  have hSorted := conforms_sort hConf
  have hSortedDepth := p.document.depth_sort_le 5 hDepth
  rw [p.document_sort] at hSorted hSortedDepth
  rw [aliasDocument_eq]
  constructor
  · rw [Conforms, every_obj] at hSorted ⊢
    refine ⟨by simp only [map_cons, map_nil]; decide, ?_⟩
    rw [forall_mem_cons]
    exact ⟨trivial, hSorted.2⟩
  · rw [Doc.depth, Nat.add_le_add_iff_right (n := 1) (k := 4), membersDepth_le_iff] at hSortedDepth ⊢
    rw [forall_mem_cons]
    exact ⟨Nat.zero_le 4, hSortedDepth⟩

theorem size_obj_cons (m : Text × Doc) (members : List (Text × Doc)) :
    size (Doc.obj members).text ≤ size (Doc.obj (m :: members)).text := by
  simp only [Doc.text, memberTexts_eq_map, map_cons, cons_append, size_cons, size_append,
    size_separated, sum_cons, length_cons]
  omega

theorem decode_aliasDocument (h : p.validate = .ok ())
    (hSize : size (aliasDocument p).text ≤ examPolicySetMaxBytes) :
    decodeExamPolicySet (utf8 (aliasDocument p).text) = .ok { p with native := p.native.own } := by
  obtain ⟨hConf, hDepth⟩ := aliasDocument_conforms h
  have hPolicySize : size p.document.sort.text ≤ examPolicySetMaxBytes := by
    exact le_trans (size_obj_cons _ _) hSize
  have hPol := unmarshalStruct_policy h hPolicySize
  obtain ⟨doc, wire, hDoc, -, hWire, hRes⟩ :=
    (decodeExamPolicySet_eq_ok_iff _ _).mp (decode_encode h hPolicySize)
  obtain ⟨hSorted, hSortedDepth⟩ := document_conforms h
  rw [hDoc.unique (isDocument_text (conforms_sort hSorted)
    (le_trans (p.document.depth_sort_le 5 hSortedDepth) (by decide))), hPol] at hWire
  cases hWire
  refine (decodeExamPolicySet_eq_ok_iff _ _).mpr ⟨aliasDocument p, p.wire,
    isDocument_text hConf (le_trans hDepth (by decide)), hSize, ?_, hRes⟩
  -- the folded name matches `connection_loss`, and null leaves the unset pointer as it is
  have hLookup : lookupField policyFields "Connection_Loss" = some
      (structField "connection_loss" (unmarshalPointer {} (unmarshalStruct connectionFields))
        (·.connectionLoss) fun v s => { s with connectionLoss := v }) := rfl
  rw [aliasDocument_eq, unmarshalStruct, unmarshalMembers, hLookup]
  exact hPol

/-- The codec is closed exactly up to the spelling of names, the size limit and foreign fields. -/
theorem examPolicyCodec_closed_iff (data : Bytes) (decoded p : ExamPolicySet) :
    (decodeExamPolicySet data = .ok decoded → ((∃ bytes, encodeExamPolicySet decoded = .ok bytes ∧
        canonicalize data data.length = .ok bytes) ↔ exactDocumentNames data = true)) ∧
    (p.validate = .ok () →
      ((∃ bytes, encodeExamPolicySet p = .ok bytes ∧ decodeExamPolicySet bytes = .ok p) ↔
        size p.document.sort.text ≤ examPolicySetMaxBytes ∧ p.native.own = p.native)) :=
  ⟨canonical_eq_encode_iff, decode_encode_iff⟩

theorem defaultExamPolicySet_validate : defaultExamPolicySet.validate = .ok () := by
  decide +kernel

theorem defaultExamPolicySet_own : defaultExamPolicySet.native.own = defaultExamPolicySet.native := by
  decide +kernel

theorem defaultExamPolicySet_size :
    size (aliasDocument defaultExamPolicySet).text ≤ examPolicySetMaxBytes := by
  decide +kernel

theorem defaultExamPolicySet_alias :
    decodeExamPolicySet (utf8 (aliasDocument defaultExamPolicySet).text) = .ok defaultExamPolicySet := by
  rw [decode_aliasDocument defaultExamPolicySet_validate defaultExamPolicySet_size,
    defaultExamPolicySet_own]

/-- The default policy with a second spelling of `connection_loss` in front of it is decoded to the
default policy, whose encoding is not the canonical form of that document. -/
theorem examPolicyCodec_not_closed :
    decodeExamPolicySet (utf8 (aliasDocument defaultExamPolicySet).text) = .ok defaultExamPolicySet ∧
      ¬ ∃ bytes, encodeExamPolicySet defaultExamPolicySet = .ok bytes ∧
        canonicalize (utf8 (aliasDocument defaultExamPolicySet).text)
          (utf8 (aliasDocument defaultExamPolicySet).text).length = .ok bytes := by
  refine ⟨defaultExamPolicySet_alias, ?_⟩
  rw [canonical_eq_encode_iff defaultExamPolicySet_alias]
  obtain ⟨hConf, hDepth⟩ := aliasDocument_conforms defaultExamPolicySet_validate
  obtain ⟨tail, hDec, -⟩ :=
    (isDocument_text hConf (le_trans hDepth (by decide : 5 ≤ maxDepth))).decode
  rw [exactDocumentNames, hDec, aliasDocument_eq, exactNames_obj]
  intro hNames
  exact absurd (hNames _ mem_cons_self).1 (by decide)

/-- The first part at the document that spells a name of the default policy in capitals, the second at
the policy itself. -/
theorem examPolicyCodec_closed_default :
    (exactDocumentNames (utf8 (aliasDocument defaultExamPolicySet).text) = true ↔
      ∃ bytes, encodeExamPolicySet defaultExamPolicySet = .ok bytes ∧
        canonicalize (utf8 (aliasDocument defaultExamPolicySet).text)
          (utf8 (aliasDocument defaultExamPolicySet).text).length = .ok bytes) ∧
    ∃ bytes, encodeExamPolicySet defaultExamPolicySet = .ok bytes ∧
      decodeExamPolicySet bytes = .ok defaultExamPolicySet := by
  have hClosed := examPolicyCodec_closed_iff (utf8 (aliasDocument defaultExamPolicySet).text)
    defaultExamPolicySet defaultExamPolicySet
  refine ⟨(hClosed.1 defaultExamPolicySet_alias).symm,
    (hClosed.2 defaultExamPolicySet_validate).mpr ⟨?_, defaultExamPolicySet_own⟩⟩
  have hSize := defaultExamPolicySet_size
  rw [aliasDocument_eq] at hSize
  rw [ExamPolicySet.document_sort]
  exact le_trans (size_obj_cons _ _) hSize

end Proctor.ExamPolicy
