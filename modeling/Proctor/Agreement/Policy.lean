import Proctor.Agreement.Values

/-!
# The effective policy document

The policy that a security session is bound to. Its capabilities are the families
of the native policy, whose decoder is closed in its own way: it compares the
document with the encoding of the family it names.
-/

namespace Proctor.Agreement

open Json CanonicalJson ExamPolicy Codec

variable (lib : Library)

/-! ## Families -/

theorem familyRow_plain : familyRow.Plain := by
  unfold familyRow
  exact .field plain_string <| .field plain_string <| .field plain_string.slice <|
    .field plain_string <| .field plain_bool <| .field plain_string <|
    .field plain_string <| .field plain_string.slice <|
    .field plain_string.slice <| .field plain_string <|
    .field plain_string.slice <| .field plain_string.slice <|
    .field plain_string.slice <| .field plain_bool <| .field plain_string
    Row.plain_nil

theorem familyNames_of_members (f : NativeFamilyFields) :
    ∀ m ∈ f.members, m.1 ∈ familyFields.map StructField.name := by
  unfold NativeFamilyFields.members
  split_ifs
  all_goals
    simp only [List.forall_mem_cons, List.not_mem_nil, false_imp_iff, implies_true, and_true]
    decide

variable {f : NativeFamilyFields}

theorem NativeFamilyFields.unmarshalStruct_sort {doc : Doc}
    (hDist : doc.Distinct) (hSort : doc.sort = f.document)
    (h : unmarshalStruct familyFields doc {} = some f) :
    unmarshalStruct familyFields doc.sort {} = some f := by
  cases doc with
  | obj given =>
    have hMems : (sortMembers given).insertionSort keyLe = f.members := Doc.obj.inj hSort
    have hExact : ∀ m ∈ given, m.1 ∈ familyFields.map StructField.name := by
      intro m hm
      have hSorted : (m.1, m.2.sort) ∈ f.members := by
        rw [← hMems]
        exact mem_sortedMembers.mpr ⟨m.2, hm, rfl⟩
      exact familyNames_of_members f (m.1, m.2.sort) hSorted
    have hZero : ({} : NativeFamilyFields) = packFamily familyRow.zero := rfl
    have hRead : unmarshalMembers familyFields given {} = some f := h
    rw [familyFields, hZero, Row.unmarshalMembers_via fun _ => rfl] at hRead
    obtain ⟨t, ht, rfl⟩ := Option.map_eq_some_iff.mp hRead
    have hSorted := familyRow_plain.sort (fun m hm => ?_) hDist.1 ht
    · change unmarshalMembers familyFields ((sortMembers given).insertionSort keyLe) {} = _
      rw [familyFields, hZero, Row.unmarshalMembers_via fun _ => rfl, hSorted]
      rfl
    · have hNames := hExact m hm
      exact hNames
  | _ => cases hSort

theorem NativeFamilyFields.unmarshalJSON_sort {doc : Doc} (hDoc : IsDocument (utf8 doc.text) doc)
    (h : NativeFamilyFields.unmarshalJSON (utf8 doc.text) = some f) :
    NativeFamilyFields.unmarshalJSON (utf8 doc.sort.text) = some f := by
  obtain ⟨hConf, hDepth⟩ := hDoc.conforms
  obtain ⟨hLen, hRead, hValid, hSort⟩ := (NativeFamilyFields.unmarshalJSON_eq_some_iff hDoc f).mp h
  have hSorted := isDocument_text (conforms_sort hConf) (doc.depth_sort_le _ hDepth)
  refine (NativeFamilyFields.unmarshalJSON_eq_some_iff hSorted f).mpr
    ⟨le_trans hDoc.size_le hLen, ?_, hValid, ?_⟩
  · exact NativeFamilyFields.unmarshalStruct_sort hConf.distinct hSort hRead
  · rw [Doc.sort_sort hConf.distinct, hSort]

/-- `NativeFamilyPolicy.MarshalJSON` refuses a family that does not validate. -/
def nativeFamilyPolicyCodec : Codec NativeFamilyFields where
  zero := {}
  unmarshal := fun doc _ => NativeFamilyFields.unmarshalJSON (utf8 doc.text)
  marshal := fun f => if f.validate then some f.document else none
  stable := by
    intro doc d f _ hRead _ _
    obtain ⟨-, doc', hDoc, -⟩ := readDocument_eq_some_iff.mp hRead
    obtain ⟨rfl, -, -⟩ := isDocument_text_iff.mp hDoc
    exact NativeFamilyFields.unmarshalJSON_sort hDoc hRead

/-! ## Effective policies -/

structure SecurityPolicyScope where
  kind : Text
  admissionScopeID : Text
  attemptID : Text
deriving DecidableEq, Repr

def securityPolicyScopeCodec : Codec SecurityPolicyScope :=
  (Codec.struct <| .field "kind" .string <| .omitempty "admission_scope_id" List.isEmpty .string <|
    .omitempty "attempt_id" List.isEmpty idCodec .nil).via
    (fun (kind, admission, attempt, _) => ⟨kind, admission, attempt⟩)
    (fun s => (s.kind, s.admissionScopeID, s.attemptID, ())) fun _ => rfl

def SecurityPolicyScope.validate (s : SecurityPolicyScope) : Bool :=
  (s.kind = "admission" && isValidAgreementID s.admissionScopeID && s.attemptID = []) ||
    (s.kind = "attempt" && isValidOpaqueID s.attemptID && s.admissionScopeID = [])

structure EffectiveExamSecurityPolicy where
  policyID : Text
  revision : Text
  ordinal : Int
  digest : Text
  institutionID : Text
  examRevisionID : Text
  sittingID : Text
  scope : SecurityPolicyScope
  issuedAt : SecurityJSONInstant
  activeFrom : SecurityJSONInstant
  applicationReleaseID : Text
  matrixID : Text
  targetTuple : Text
  registryDigest : Text
  focusLossMode : Text
  connectionLossMode : Text
  resolvedExceptionRefs : Option (List Text)
  evidenceClassID : Text
  visibilityClassID : Text
  retentionClassID : Text
  capabilities : Option (List NativeFamilyFields)
deriving DecidableEq, Repr

def effectiveExamSecurityPolicyWire : Codec EffectiveExamSecurityPolicy :=
  (Codec.struct <| .field "policy_id" .string <| .field "revision" .string <|
    .field "ordinal" .int <| .field "digest" .string <|
    .field "institution_id" idCodec <| .field "exam_revision_id" idCodec <|
    .field "sitting_id" idCodec <| .field "scope" securityPolicyScopeCodec <|
    .field "issued_at" (instantCodec lib) <| .field "active_from" (instantCodec lib) <|
    .field "application_release_id" .string <| .field "matrix_id" .string <|
    .field "target_tuple" .string <| .field "registry_digest" .string <|
    .field "focus_loss_mode" .string <| .field "connection_loss_mode" .string <|
    .field "resolved_exception_refs" Codec.string.slice <|
    .field "evidence_class_id" .string <| .field "visibility_class_id" .string <|
    .field "retention_class_id" .string <|
    .field "capabilities" nativeFamilyPolicyCodec.slice .nil).via
    (fun (policy, revision, ordinal, digest, institution, exam, sitting, scope, issuedAt, activeFrom,
        release, matrix, target, registry, focus, connection, exceptions, evidence, visibility,
        retention, capabilities, _) =>
      ⟨policy, revision, ordinal, digest, institution, exam, sitting, scope, issuedAt, activeFrom,
        release, matrix, target, registry, focus, connection, exceptions, evidence, visibility,
        retention, capabilities⟩)
    (fun p => (p.policyID, p.revision, p.ordinal, p.digest, p.institutionID, p.examRevisionID,
      p.sittingID, p.scope, p.issuedAt, p.activeFrom, p.applicationReleaseID, p.matrixID,
      p.targetTuple, p.registryDigest, p.focusLossMode, p.connectionLossMode,
      p.resolvedExceptionRefs, p.evidenceClassID, p.visibilityClassID, p.retentionClassID,
      p.capabilities, ()))
    fun _ => rfl

def EffectiveExamSecurityPolicy.validateFields (p : EffectiveExamSecurityPolicy) (instant : Time) :
    Bool :=
  isValidAgreementID p.policyID && isSecurityRevision p.revision && !(p.ordinal < 1) &&
    !(p.ordinal > 9007199254740991) && isValidOpaqueID p.institutionID &&
    isValidOpaqueID p.examRevisionID && isValidOpaqueID p.sittingID && p.scope.validate &&
    p.issuedAt.time.securityInstant && p.activeFrom.time.securityInstant &&
    !(p.activeFrom.time.nanoseconds < p.issuedAt.time.nanoseconds) && !instant.isZero &&
    !(p.activeFrom.time.nanoseconds > instant.nanoseconds) &&
    isValidAgreementID p.applicationReleaseID && isValidAgreementID p.matrixID &&
    isValidAgreementID p.targetTuple && isValidMode p.focusLossMode &&
    p.connectionLossMode = nativeModeEnforce && p.resolvedExceptionRefs = some [] &&
    p.evidenceClassID = "native_integrity" &&
    p.visibilityClassID = "examiner_restricted" &&
    p.retentionClassID = "native_minimized" &&
    NativeSecurityPolicy.validate ⟨p.registryDigest, "desktop_candidate", p.capabilities⟩

/-- `document("digest")`: the members of the encoding without the digest. -/
def EffectiveExamSecurityPolicy.contentDocument (p : EffectiveExamSecurityPolicy) : Option Doc :=
  match (effectiveExamSecurityPolicyWire lib).marshal p with
  | some (.obj members) => some (.obj (members.filter fun m => m.1 ≠ "digest"))
  | _ => none

def EffectiveExamSecurityPolicy.validate (p : EffectiveExamSecurityPolicy) (instant : Time) : Bool :=
  isValidSHA256Fingerprint p.digest && p.validateFields instant &&
    (p.contentDocument lib).any fun doc =>
      (encodeCanonicalExamDocument doc).toOption.any fun raw => lib.sha256Fingerprint raw = p.digest

def securityPolicyResponseMaxBytes : Nat := 128 * 1024

end Proctor.Agreement
