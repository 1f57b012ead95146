import Proctor.Agreement.Values
import Proctor.Delivery.Lifecycle

/-!
# Native documents

The four kinds of native record, the batch that carries them, and the report with
which a client starts a security session. A record is a closed union: its kind is
read first and chooses the document it is decoded as.
-/

namespace Proctor.Agreement

open Json CanonicalJson ExamPolicy List
open Option (bind_eq_bind bind_some map_eq_some_iff)
open Delivery (securitySafeInt)

variable (lib : Library)

def nativeSources : List Text :=
  ["display-topology", "candidate-window", "capture-session",
    "process-application", "interactive-session", "clipboard",
    "print-spooler", "removable-storage", "virtualization",
    "network-configuration", "media-device"]

def orderedSources (previous : Int) : List Text → Bool
  | [] => true
  | id :: rest => (nativeSources.idxOf? id).any fun order =>
      !((order : Int) ≤ previous) && orderedSources order rest

def nativeDocumentMaximumBytes : Nat := 256 * 1024

/-! ## Source coverage -/

structure NativeSourceCoverage where
  sourceID : Text
  sourceInstanceID : Text
  sequence : Int
  sourceSchemaDigest : Text
  adapterVersion : Text
  health : Text
  permission : Text
  complete : Bool
  gapCount : Int
deriving DecidableEq, Repr

def nativeSourceCoverageCodec : Codec NativeSourceCoverage :=
  (Codec.struct <| .field "source_id" .string <|
    .field "source_instance_id" .string <| .field "sequence" .int <|
    .field "source_schema_digest" .string <| .field "adapter_version" .string <|
    .field "health" .string <| .field "permission" .string <|
    .field "complete" .bool <| .field "gap_count" .int .nil).via
    (fun (source, inst, sequence, schema, adapter, health, permission, complete, gaps, _) =>
      ⟨source, inst, sequence, schema, adapter, health, permission, complete, gaps⟩)
    (fun c => (c.sourceID, c.sourceInstanceID, c.sequence, c.sourceSchemaDigest, c.adapterVersion,
      c.health, c.permission, c.complete, c.gapCount, ()))
    fun _ => rfl

structure NativeCoverageClaim where
  coverageKey : Text
  sourceSchemaDigest : Text
  claim : Text
  state : Text
deriving DecidableEq, Repr

def nativeCoverageClaimCodec : Codec NativeCoverageClaim :=
  (Codec.struct <| .field "coverage_key" .string <|
    .field "source_schema_digest" .string <| .field "claim" .string <|
    .field "state" .string .nil).via
    (fun (key, schema, claim, state, _) => ⟨key, schema, claim, state⟩)
    (fun c => (c.coverageKey, c.sourceSchemaDigest, c.claim, c.state, ())) fun _ => rfl

def NativeSourceCoverage.validate (c : NativeSourceCoverage) : Bool :=
  isValidAgreementID c.sourceInstanceID && securitySafeInt c.sequence &&
    isValidSHA256Fingerprint c.sourceSchemaDigest && isValidAgreementID c.adapterVersion &&
    (["starting", "healthy", "degraded", "failed", "recovering",
      "stopped"] : List Text).contains c.health &&
    (["denied", "granted", "not_determined", "restricted",
      "unavailable"] : List Text).contains c.permission &&
    securitySafeInt c.gapCount

def nativeClaimObserve : Text := "observe"
def nativeClaimEnforce : Text := "enforce"
def nativeClaimUnavailable : Text := "unavailable"

def increasingClaims (previous : Text) : List NativeCoverageClaim → Bool
  | [] => true
  | c :: rest =>
    isValidAgreementID c.coverageKey && utf8 previous < utf8 c.coverageKey &&
      isValidSHA256Fingerprint c.sourceSchemaDigest &&
      [nativeClaimEnforce, nativeClaimObserve, nativeClaimUnavailable].contains c.claim &&
      (["ready", "degraded", "unavailable"] : List Text).contains c.state &&
      !(c.claim = nativeClaimUnavailable && c.state ≠ "unavailable") &&
      increasingClaims c.coverageKey rest

def nativeCoverageClaimLimit : Nat := 64

def validateNativeCoverageSnapshot (sources : Option (List NativeSourceCoverage))
    (claims : Option (List NativeCoverageClaim)) : Bool :=
  sources.any (fun sources => sources.length ≤ nativeSources.length &&
    orderedSources (-1) (sources.map (·.sourceID)) && sources.all (·.validate)) &&
    claims.any fun claims => claims.length ≤ nativeCoverageClaimLimit && increasingClaims [] claims

/-! ## Records -/

structure NativeSourceRange where
  sourceID : Text
  sourceInstanceID : Text
  firstSequence : Int
  lastSequence : Int
deriving DecidableEq, Repr

def nativeSourceRangeCodec : Codec NativeSourceRange :=
  (Codec.struct <| .field "source_id" .string <|
    .field "source_instance_id" .string <| .field "first_sequence" .int <|
    .field "last_sequence" .int .nil).via
    (fun (source, inst, first, last, _) => ⟨source, inst, first, last⟩)
    (fun r => (r.sourceID, r.sourceInstanceID, r.firstSequence, r.lastSequence, ())) fun _ => rfl

structure NativeOccurrence where
  kind : Text
  occurrenceID : Text
  conditionID : Text
  detectorID : Text
  detectorVersion : Int
  capabilityID : Text
  mode : Text
  status : Text
  firstObservedAt : SecurityJSONInstant
  lastConfirmedAt : SecurityJSONInstant
  repeatCount : Int
  certainty : Text
  gapCount : Int
  sourceRanges : Option (List NativeSourceRange)
deriving DecidableEq, Repr

def nativeOccurrenceWire : Codec NativeOccurrence :=
  (Codec.struct <| .field "kind" .string <| .field "occurrence_id" .string <|
    .field "condition_id" .string <| .field "detector_id" .string <|
    .field "detector_version" .int <| .field "capability_id" .string <|
    .field "mode" .string <| .field "status" .string <|
    .field "first_observed_at" (instantCodec lib) <|
    .field "last_confirmed_at" (instantCodec lib) <|
    .field "repeat_count" .int <| .field "certainty" .string <|
    .field "gap_count" .int <|
    .field "source_ranges" nativeSourceRangeCodec.slice .nil).via
    (fun (kind, occurrence, condition, detector, version, capability, mode, status, first, last,
        repeats, certainty, gaps, ranges, _) =>
      ⟨kind, occurrence, condition, detector, version, capability, mode, status, first, last,
        repeats, certainty, gaps, ranges⟩)
    (fun o => (o.kind, o.occurrenceID, o.conditionID, o.detectorID, o.detectorVersion,
      o.capabilityID, o.mode, o.status, o.firstObservedAt, o.lastConfirmedAt, o.repeatCount,
      o.certainty, o.gapCount, o.sourceRanges, ()))
    fun _ => rfl

def NativeSourceRange.validate (r : NativeSourceRange) : Bool :=
  isValidAgreementID r.sourceInstanceID && securitySafeInt r.firstSequence &&
    securitySafeInt r.lastSequence && !(r.lastSequence < r.firstSequence)

def NativeOccurrence.validate (o : NativeOccurrence) : Bool :=
  o.kind = "occurrence" && isValidAgreementID o.occurrenceID &&
    isValidAgreementID o.conditionID && isValidAgreementID o.detectorID &&
    !(o.detectorVersion ≤ 0) && securitySafeInt o.detectorVersion &&
    isValidAgreementID o.capabilityID &&
    [nativeClaimObserve, nativeClaimEnforce].contains o.mode &&
    (["opened", "repeated", "recovered"] : List Text).contains o.status &&
    o.firstObservedAt.time.securityInstant && o.lastConfirmedAt.time.securityInstant &&
    !(o.repeatCount ≤ 0) && securitySafeInt o.repeatCount &&
    (["complete", "partial", "unknown"] : List Text).contains o.certainty &&
    securitySafeInt o.gapCount &&
    o.sourceRanges.any fun ranges => !ranges.isEmpty && ranges.length ≤ 11 &&
      orderedSources (-1) (ranges.map (·.sourceID)) && ranges.all (·.validate)

def nativeOccurrenceCodec : Codec NativeOccurrence :=
  closed (nativeOccurrenceWire lib) nativeDocumentMaximumBytes NativeOccurrence.validate

structure NativeCoverageTransition where
  kind : Text
  source : NativeSourceCoverage
  occurredAt : SecurityJSONInstant
  reason : Text
deriving DecidableEq, Repr

theorem fresh_reason : "reason".toList ∉ ([] : List Text) := not_mem_nil

def nativeCoverageTransitionWire : Codec NativeCoverageTransition :=
  (Codec.struct <| .field "kind" .string <| .field "source" nativeSourceCoverageCodec <|
    .field "occurred_at" (instantCodec lib) <| .field "reason" .string .nil fresh_reason).via
    (fun (kind, source, occurredAt, reason, _) => ⟨kind, source, occurredAt, reason⟩)
    (fun t => (t.kind, t.source, t.occurredAt, t.reason, ())) fun _ => rfl

def NativeCoverageTransition.validate (t : NativeCoverageTransition) : Bool :=
  t.kind = "coverage_transition" &&
    validateNativeCoverageSnapshot (some [t.source]) (some []) && t.occurredAt.time.securityInstant &&
    (["initial", "health_changed", "permission_changed", "reconciled",
      "stopped"] : List Text).contains t.reason

def nativeCoverageTransitionCodec : Codec NativeCoverageTransition :=
  closed (nativeCoverageTransitionWire lib) nativeDocumentMaximumBytes
    NativeCoverageTransition.validate

structure NativeSourceReset where
  kind : Text
  resetID : Text
  sourceID : Text
  previousSourceInstanceID : Text
  previousFinalSequence : Int
  newSourceInstanceID : Text
  reason : Text
  occurredAt : SecurityJSONInstant
deriving DecidableEq, Repr

def nativeSourceResetWire : Codec NativeSourceReset :=
  (Codec.struct <| .field "kind" .string <| .field "reset_id" .string <|
    .field "source_id" .string <| .field "previous_source_instance_id" .string <|
    .field "previous_final_sequence" .int <|
    .field "new_source_instance_id" .string <| .field "reason" .string <|
    .field "occurred_at" (instantCodec lib) .nil).via
    (fun (kind, reset, source, previous, final, new, reason, occurredAt, _) =>
      ⟨kind, reset, source, previous, final, new, reason, occurredAt⟩)
    (fun r => (r.kind, r.resetID, r.sourceID, r.previousSourceInstanceID, r.previousFinalSequence,
      r.newSourceInstanceID, r.reason, r.occurredAt, ()))
    fun _ => rfl

def NativeSourceReset.validate (r : NativeSourceReset) : Bool :=
  r.kind = "source_reset" && isValidAgreementID r.resetID &&
    nativeSources.contains r.sourceID && isValidAgreementID r.previousSourceInstanceID &&
    isValidAgreementID r.newSourceInstanceID &&
    r.previousSourceInstanceID ≠ r.newSourceInstanceID &&
    securitySafeInt r.previousFinalSequence &&
    (["restart", "resume", "permission_changed"] : List Text).contains r.reason &&
    r.occurredAt.time.securityInstant

def nativeSourceResetCodec : Codec NativeSourceReset :=
  closed (nativeSourceResetWire lib) nativeDocumentMaximumBytes NativeSourceReset.validate

structure NativeSourceGap where
  kind : Text
  sourceID : Text
  sourceInstanceID : Text
  firstMissingSequence : Int
  lastMissingSequence : Int
  reason : Text
  occurredAt : SecurityJSONInstant
deriving DecidableEq, Repr

def nativeSourceGapWire : Codec NativeSourceGap :=
  (Codec.struct <| .field "kind" .string <| .field "source_id" .string <|
    .field "source_instance_id" .string <| .field "first_missing_sequence" .int <|
    .field "last_missing_sequence" .int <| .field "reason" .string <|
    .field "occurred_at" (instantCodec lib) .nil).via
    (fun (kind, source, inst, first, last, reason, occurredAt, _) =>
      ⟨kind, source, inst, first, last, reason, occurredAt⟩)
    (fun g => (g.kind, g.sourceID, g.sourceInstanceID, g.firstMissingSequence,
      g.lastMissingSequence, g.reason, g.occurredAt, ()))
    fun _ => rfl

def NativeSourceGap.validate (g : NativeSourceGap) : Bool :=
  g.kind = "source_gap" && nativeSources.contains g.sourceID &&
    isValidAgreementID g.sourceInstanceID && securitySafeInt g.firstMissingSequence &&
    securitySafeInt g.lastMissingSequence && !(g.lastMissingSequence < g.firstMissingSequence) &&
    (["overflow", "source_loss", "corruption"] : List Text).contains g.reason &&
    g.occurredAt.time.securityInstant

def nativeSourceGapCodec : Codec NativeSourceGap :=
  closed (nativeSourceGapWire lib) nativeDocumentMaximumBytes NativeSourceGap.validate

/-! ## The union of the records -/

structure NativeRecord where
  occurrence : Option NativeOccurrence := none
  coverage : Option NativeCoverageTransition := none
  reset : Option NativeSourceReset := none
  gap : Option NativeSourceGap := none
deriving DecidableEq, Repr

/-- `NativeRecord.MarshalJSON`: exactly one valid record is written. -/
def NativeRecord.marshalJSON (r : NativeRecord) : Option Doc :=
  match r.occurrence, r.coverage, r.reset, r.gap with
  | some o, none, none, none => if o.validate then (nativeOccurrenceCodec lib).marshal o else none
  | none, some t, none, none =>
    if t.validate then (nativeCoverageTransitionCodec lib).marshal t else none
  | none, none, some s, none => if s.validate then (nativeSourceResetCodec lib).marshal s else none
  | none, none, none, some g => if g.validate then (nativeSourceGapCodec lib).marshal g else none
  | _, _, _, _ => none

def NativeRecord.validate (r : NativeRecord) : Bool :=
  match r.occurrence, r.coverage, r.reset, r.gap with
  | some o, none, none, none => o.validate
  | none, some t, none, none => t.validate
  | none, none, some s, none => s.validate
  | none, none, none, some g => g.validate
  | _, _, _, _ => false

def kindField : List (StructField Text) := [structField "kind" unmarshalString id fun v _ => v]

/-- `json.Unmarshal` into a struct with the one field `kind`; other members are passed over. -/
def peekKind : Doc → Option Text
  | .null => some []
  | .obj members =>
    unmarshalMembers kindField (members.filter fun m => foldName m.1 = foldName "kind") []
  | _ => none

def decodeRecord (raw : Bytes) (kind : Text) : Option NativeRecord :=
  if kind = "occurrence" then
    (decodeClosedDeliveryDeclaration (nativeOccurrenceCodec lib) raw nativeDocumentMaximumBytes).map
      fun o => { occurrence := some o }
  else if kind = "coverage_transition" then
    (decodeClosedDeliveryDeclaration (nativeCoverageTransitionCodec lib) raw
      nativeDocumentMaximumBytes).map fun t => { coverage := some t }
  else if kind = "source_reset" then
    (decodeClosedDeliveryDeclaration (nativeSourceResetCodec lib) raw nativeDocumentMaximumBytes).map
      fun s => { reset := some s }
  else if kind = "source_gap" then
    (decodeClosedDeliveryDeclaration (nativeSourceGapCodec lib) raw nativeDocumentMaximumBytes).map
      fun g => { gap := some g }
  else none

def NativeRecord.unmarshalJSON (raw : Bytes) : Option NativeRecord :=
    readDocument raw nativeDocumentMaximumBytes fun supplied => do
  let kind ← peekKind supplied
  (decodeRecord lib raw kind).filter (·.validate)

/-- Objects are written whose names match `kind` up to case only if they are `kind`. -/
def OneKind {α : Type} (c : Codec α) : Prop :=
  ∃ names : List Text,
    (∀ v d, c.marshal v = some d → ∃ members, d = .obj members ∧ ∀ m ∈ members, m.1 ∈ names) ∧
    ∀ name ∈ names, foldName name = foldName "kind" → name = "kind"

variable {names : List Text} {members : List (Text × Doc)} {doc : Doc} {raw : Bytes} {r : NativeRecord}

theorem oneKind_closed {σ β : Type} (row : Row names σ) (pack : σ → β)
    (unpack : β → σ) (hUnpack : ∀ a, unpack (pack a) = a) (maximum : Nat) (valid : β → Bool)
    (hKind : ∀ name ∈ names, foldName name = foldName "kind" → name = "kind") :
    OneKind (closed ((Codec.struct row).via pack unpack hUnpack) maximum valid) := by
  refine ⟨names, ?_, hKind⟩
  intro v d hWrite
  obtain ⟨members, hMems, rfl⟩ := map_eq_some_iff.mp hWrite
  exact ⟨members, rfl, row.within hMems⟩

theorem filter_length_le_one {name : Text}
    (hNodup : (members.map Prod.fst).Nodup) {p : Text × Doc → Bool}
    (hOnly : ∀ m ∈ members, p m → m.1 = name) : (members.filter p).length ≤ 1 := by
  have hKeys : ((members.filter p).map Prod.fst).Nodup :=
    hNodup.sublist (filter_sublist.map Prod.fst)
  match hFilter : members.filter p with
  | [] => exact Nat.zero_le 1
  | [m] => exact le_rfl
  | a :: b :: rest =>
    have hMem : ∀ m ∈ members.filter p, m.1 = name := fun m hm =>
      hOnly m (mem_filter.mp hm).1 (mem_filter.mp hm).2
    rw [hFilter] at hKeys hMem
    rw [map_cons, map_cons, nodup_cons] at hKeys
    refine absurd ?_ hKeys.1
    rw [hMem a (by simp), hMem b (by simp)]
    exact mem_cons_self

theorem kindField_sort (name : Text) (doc : Doc) :
    unmarshalMembers kindField [(name, doc.sort)] [] = unmarshalMembers kindField [(name, doc)] [] := by
  have hStore : ∀ f ∈ kindField, f.store doc.sort [] = f.store doc [] := by
    intro f hf
    obtain rfl := mem_singleton.mp hf
    cases doc <;> rfl
  rw [unmarshalMembers, unmarshalMembers]
  cases hField : lookupField kindField name with
  | none => rfl
  | some f =>
    have hMem : f ∈ kindField := by
      rcases Option.or_eq_some_iff.mp hField with hFound | ⟨-, hFound⟩
      · exact mem_of_find?_eq_some hFound
      · exact mem_of_find?_eq_some hFound
    rw [bind_eq_bind, bind_some, bind_some, hStore f hMem]

theorem peekKind_sort (hNodup : (members.map Prod.fst).Nodup) (hNames : ∀ m ∈ members, m.1 ∈ names)
    (hKind : ∀ name ∈ names, foldName name = foldName "kind" → name = "kind") :
    peekKind (Doc.obj members).sort = peekKind (.obj members) := by
  let p : Text × Doc → Bool := fun m => decide (foldName m.1 = foldName "kind")
  have hPerm : (((sortMembers members).insertionSort keyLe).filter p).Perm
      ((members.filter p).map fun m => (m.1, m.2.sort)) := by
    refine ((sortedMembers_perm members).filter p).trans (List.Perm.of_eq ?_)
    rw [filter_map]
    rfl
  have hLen : (members.filter p).length ≤ 1 :=
    filter_length_le_one hNodup fun m hm hp => hKind m.1 (hNames m hm) (of_decide_eq_true hp)
  change unmarshalMembers kindField (((sortMembers members).insertionSort keyLe).filter p) [] =
    unmarshalMembers kindField (members.filter p) []
  match hFilter : members.filter p with
  | [] =>
    rw [hFilter] at hPerm
    rw [List.Perm.eq_nil hPerm]
  | [m] =>
    rw [hFilter] at hPerm
    rw [perm_singleton.mp hPerm]
    exact kindField_sort m.1 m.2
  | a :: b :: rest =>
    rw [hFilter] at hLen
    exact absurd hLen (by simp)

theorem decodeClosed_kind_sort {α : Type} {c : Codec α} (hOne : OneKind c)
    {maximum : Nat} {v : α} (hDoc : IsDocument raw doc)
    (h : decodeClosedDeliveryDeclaration c raw maximum = some v) : peekKind doc.sort = peekKind doc ∧
      decodeClosedDeliveryDeclaration c (utf8 doc.sort.text) maximum = some v := by
  refine ⟨?_, decodeClosedDeliveryDeclaration_sort hDoc h⟩
  obtain ⟨-, doc', hDoc', -, hWritten⟩ := decodeClosedDeliveryDeclaration_eq_some_iff.mp h
  obtain rfl := hDoc'.unique hDoc
  obtain ⟨d, hd, hConf, -, hSame⟩ := encodeCanonical_eq_some_iff.mp hWritten
  obtain ⟨names, hNames, hKind⟩ := hOne
  obtain ⟨written, rfl, hWithin⟩ := hNames v d hd
  have hDist := hDoc.conforms.1.distinct
  have hValue : doc'.value = (Doc.obj written).value :=
    (Doc.value_eq_iff_sort_eq hDist hConf.distinct).mpr
      (Doc.text_injective (utf8_injective hSame))
  cases doc' with
  | obj members =>
    refine peekKind_sort hDist.1 (fun m hm => ?_) hKind
    obtain ⟨other, hOther, -⟩ := member_of_value_eq hDist.1 hValue hm
    exact hWithin (m.1, other) hOther
  | _ => cases hValue

theorem decodeRecord_sort {kind : Text}
    (hDoc : IsDocument raw doc) (h : decodeRecord lib raw kind = some r) :
    peekKind doc.sort = peekKind doc ∧ decodeRecord lib (utf8 doc.sort.text) kind = some r := by
  have hKind {α : Type} {c : Codec α} {wrap : α → NativeRecord} (hOne : OneKind c)
      (h : (decodeClosedDeliveryDeclaration c raw nativeDocumentMaximumBytes).map wrap = some r) :
      peekKind doc.sort = peekKind doc ∧ (decodeClosedDeliveryDeclaration c (utf8 doc.sort.text)
        nativeDocumentMaximumBytes).map wrap = some r := by
    obtain ⟨v, hv, rfl⟩ := map_eq_some_iff.mp h
    obtain ⟨hPeek, hSort⟩ := decodeClosed_kind_sort hOne hDoc hv
    exact ⟨hPeek, by rw [hSort]; rfl⟩
  unfold decodeRecord at h ⊢
  split_ifs at h ⊢
  all_goals exact hKind (oneKind_closed _ _ _ _ _ _ (by decide)) h

theorem NativeRecord.unmarshalJSON_eq_some_iff : NativeRecord.unmarshalJSON lib raw = some r ↔
      raw.length ≤ nativeDocumentMaximumBytes ∧ ∃ doc kind, IsDocument raw doc ∧
        peekKind doc = some kind ∧ decodeRecord lib raw kind = some r ∧ r.validate := by
  refine readDocument_eq_some_iff.trans (and_congr_right' (exists_congr fun doc => ?_))
  simp only [bind_eq_bind, Option.bind_eq_some_iff, Option.filter_eq_some_iff, exists_and_left]

theorem NativeRecord.unmarshalJSON_sort
    (hDoc : IsDocument raw doc) (h : NativeRecord.unmarshalJSON lib raw = some r) :
    NativeRecord.unmarshalJSON lib (utf8 doc.sort.text) = some r := by
  obtain ⟨hLen, doc', kind, hDoc', hKind, hRec, hValid⟩ :=
    (NativeRecord.unmarshalJSON_eq_some_iff lib).mp h
  obtain rfl := hDoc'.unique hDoc
  obtain ⟨hPeek, hSorted⟩ := decodeRecord_sort lib hDoc hRec
  refine (NativeRecord.unmarshalJSON_eq_some_iff lib).mpr
    ⟨le_trans hDoc.size_le hLen, doc'.sort, kind, ?_, hPeek.trans hKind, hSorted, hValid⟩
  exact isDocument_text (conforms_sort hDoc.conforms.1) (doc'.depth_sort_le _ hDoc.conforms.2)

def nativeRecordCodec : Codec NativeRecord where
  zero := {}
  unmarshal := fun doc _ => NativeRecord.unmarshalJSON lib (utf8 doc.text)
  marshal := NativeRecord.marshalJSON lib
  stable := by
    intro doc d r _ hRead _ _
    obtain ⟨-, doc', -, hDoc, -⟩ := (NativeRecord.unmarshalJSON_eq_some_iff lib).mp hRead
    obtain ⟨rfl, -, -⟩ := isDocument_text_iff.mp hDoc
    exact NativeRecord.unmarshalJSON_sort lib hDoc hRead

/-! ## Batches and reports -/

structure NativeSecurityBatch where
  streamID : Text
  batchSequence : Int
  priorAcknowledgement : Int
  participationID : Text
  generation : Int
  securitySessionID : Text
  policyDigest : Text
  applicationReleaseID : Text
  matrixID : Text
  records : Option (List NativeRecord)
deriving DecidableEq, Repr

def nativeSecurityBatchWire : Codec NativeSecurityBatch :=
  (Codec.struct <| .field "stream_id" .string <| .field "batch_sequence" .int <|
    .field "prior_acknowledgement" .int <| .field "participation_id" idCodec <|
    .field "generation" .int <| .field "security_session_id" .string <|
    .field "policy_digest" .string <| .field "application_release_id" .string <|
    .field "matrix_id" .string <| .field "records" (nativeRecordCodec lib).slice .nil).via
    (fun (stream, sequence, acknowledged, participation, generation, session, digest, release,
        matrix, records, _) =>
      ⟨stream, sequence, acknowledged, participation, generation, session, digest, release, matrix,
        records⟩)
    (fun b => (b.streamID, b.batchSequence, b.priorAcknowledgement, b.participationID, b.generation,
      b.securitySessionID, b.policyDigest, b.applicationReleaseID, b.matrixID, b.records, ()))
    fun _ => rfl

def NativeSecurityBatch.validate (b : NativeSecurityBatch) : Bool :=
  isValidAgreementID b.streamID && !(b.batchSequence ≤ 0) && securitySafeInt b.batchSequence &&
    securitySafeInt b.priorAcknowledgement && isValidOpaqueID b.participationID &&
    !(b.generation ≤ 0) && securitySafeInt b.generation && isValidAgreementID b.securitySessionID &&
    isValidSHA256Fingerprint b.policyDigest && isValidAgreementID b.applicationReleaseID &&
    isValidAgreementID b.matrixID && (b.records.getD []).length ≠ 0 &&
    (b.records.getD []).length ≤ 64 && (b.records.getD []).all (·.validate) &&
    encodesWithin (nativeSecurityBatchWire lib) b nativeDocumentMaximumBytes

structure NativeBaselineReport where
  constrainedWindow : Text
  singlePhysicalDisplay : Text
  contentProtection : Text
deriving DecidableEq, Repr

def nativeBaselineReportCodec : Codec NativeBaselineReport :=
  (Codec.struct <| .field "constrained_window" .string <|
    .field "single_physical_display" .string <|
    .field "content_protection" .string .nil).via
    (fun (window, display, content, _) => ⟨window, display, content⟩)
    (fun b => (b.constrainedWindow, b.singlePhysicalDisplay, b.contentProtection, ())) fun _ => rfl

structure SecurityPreflightReport where
  challenge : Text
  policyDigest : Text
  policyContentDigest : Text
  capabilityMatrixDigest : Text
  securitySessionID : Text
  sourceManifestDigest : Text
  selectedSourceCategories : Option (List Text)
  sources : Option (List NativeSourceCoverage)
  coverage : Option (List NativeCoverageClaim)
  baseline : NativeBaselineReport
  posture : Text
  reportedAt : SecurityJSONInstant
deriving DecidableEq, Repr

def securityPreflightReportWire : Codec SecurityPreflightReport :=
  (Codec.struct <| .field "challenge" .string <| .field "policy_digest" .string <|
    .field "policy_content_digest" .string <| .field "capability_matrix_digest" .string <|
    .field "security_session_id" .string <| .field "source_manifest_digest" .string <|
    .field "selected_source_categories" Codec.string.slice <|
    .field "sources" nativeSourceCoverageCodec.slice <|
    .field "coverage" nativeCoverageClaimCodec.slice <|
    .field "baseline" nativeBaselineReportCodec <| .field "posture" .string <|
    .field "reported_at" (instantCodec lib) .nil).via
    (fun (challenge, policy, content, matrix, session, manifest, categories, sources, coverage,
        baseline, posture, reportedAt, _) =>
      ⟨challenge, policy, content, matrix, session, manifest, categories, sources, coverage,
        baseline, posture, reportedAt⟩)
    (fun r => (r.challenge, r.policyDigest, r.policyContentDigest, r.capabilityMatrixDigest,
      r.securitySessionID, r.sourceManifestDigest, r.selectedSourceCategories, r.sources, r.coverage,
      r.baseline, r.posture, r.reportedAt, ()))
    fun _ => rfl

def nativeSourceCategories : List Text :=
  ["os-clipboard-change", "removable-block-storage", "portable-mtp",
    "system-proxy-state", "os-managed-vpn-state", "tunnel-interface-state",
    "route-change", "network-source-health", "camera", "microphone"]

def securityPreflightReportMaxBytes : Nat := 64 * 1024

def SecurityPreflightReport.validate (r : SecurityPreflightReport) : Bool :=
  (lib.decodeBase64 r.challenge).any (fun raw =>
    raw.length = 32 && lib.encodeBase64 raw = r.challenge) &&
    isValidSHA256Fingerprint r.policyDigest && isValidSHA256Fingerprint r.policyContentDigest &&
    isValidSHA256Fingerprint r.capabilityMatrixDigest && isValidAgreementID r.securitySessionID &&
    isValidSHA256Fingerprint r.sourceManifestDigest &&
    r.selectedSourceCategories.any (fun categories =>
      categories.length ≤ nativeSourceCategories.length &&
        categories.all (nativeSourceCategories.contains ·) && decide categories.Nodup) &&
    (["compliant", "degraded", "contained", "failed"] : List Text).contains r.posture &&
    r.reportedAt.time.securityInstant &&
    [r.baseline.constrainedWindow, r.baseline.singlePhysicalDisplay,
      r.baseline.contentProtection].all (["verified".toList, "unavailable".toList].contains ·) &&
    validateNativeCoverageSnapshot r.sources r.coverage &&
    encodesWithin (securityPreflightReportWire lib) r securityPreflightReportMaxBytes

end Proctor.Agreement
