import Proctor.Agreement.Browser
import Proctor.Agreement.Native
import Proctor.Agreement.Policy

/-!
# The documents are codecs

Every type that is decoded as a closed document: what is accepted is encoded again
with the canonical form of the document, and that form is decoded to the same
value.
-/

namespace Proctor.Agreement

open Json CanonicalJson ExamPolicy
open Delivery (FinalDeliveryDeclaration)

inductive DocumentKind where
  | declareDeliveryGaps
  | finalDeliveryDeclaration
  | unretainedDeliverySummary
  | browserPolicyRule
  | browserStartTransition
  | browserSourceStart
  | browserActivityEvent
  | browserActivityBatch
  | securityPreflightReport
  | nativeSourceReset
  | effectiveExamSecurityPolicy
  | nativeRecord
  | nativeSecurityBatch
  | nativeOccurrence
  | nativeCoverageTransition
  | nativeSourceGap
deriving DecidableEq, Repr

namespace DocumentKind

abbrev Value : DocumentKind → Type
  | declareDeliveryGaps => DeclareDeliveryGaps
  | finalDeliveryDeclaration => FinalDeliveryDeclaration
  | unretainedDeliverySummary => UnretainedDeliverySummary
  | browserPolicyRule => BrowserPolicyRule
  | browserStartTransition => BrowserStartTransition
  | browserSourceStart => BrowserSourceStart
  | browserActivityEvent => BrowserActivityEvent
  | browserActivityBatch => BrowserActivityBatch
  | securityPreflightReport => SecurityPreflightReport
  | nativeSourceReset => NativeSourceReset
  | effectiveExamSecurityPolicy => EffectiveExamSecurityPolicy
  | nativeRecord => NativeRecord
  | nativeSecurityBatch => NativeSecurityBatch
  | nativeOccurrence => NativeOccurrence
  | nativeCoverageTransition => NativeCoverageTransition
  | nativeSourceGap => NativeSourceGap

variable (lib : Library)

def methods : (kind : DocumentKind) → Methods kind.Value
  | declareDeliveryGaps => closedMethods declareDeliveryGapsWire (8 * 1024) DeclareDeliveryGaps.validate
  | finalDeliveryDeclaration => closedMethods finalDeliveryDeclarationWire (2 * 1024)
      FinalDeliveryDeclaration.validate
  | unretainedDeliverySummary => closedMethods (unretainedDeliverySummaryWire lib) 2048
      UnretainedDeliverySummary.validate
  | browserPolicyRule => closedMethods browserPolicyRuleWire browserPolicyMaximumBytes fun _ => true
  | browserStartTransition => closedMethods browserStartTransitionWire 2048 BrowserStartTransition.validate
  | browserSourceStart => closedMethods browserSourceStartWire 8192 BrowserSourceStart.validate
  | browserActivityEvent => ⟨browserActivityEventCodec lib, unmarshalClosed (browserActivityEventWire lib)
      browserActivityAppendMaximumBytes (BrowserActivityEvent.validateClientRecord lib)⟩
  | browserActivityBatch => closedMethods (browserActivityBatchWire lib) browserActivityAppendMaximumBytes
      (BrowserActivityBatch.validate lib)
  | securityPreflightReport => closedMethods (securityPreflightReportWire lib)
      securityPreflightReportMaxBytes (SecurityPreflightReport.validate lib)
  | nativeSourceReset => closedMethods (nativeSourceResetWire lib) nativeDocumentMaximumBytes
      NativeSourceReset.validate
  | effectiveExamSecurityPolicy => closedMethods (effectiveExamSecurityPolicyWire lib)
      securityPolicyResponseMaxBytes fun p => p.validate lib p.activeFrom.time
  | nativeRecord => ⟨nativeRecordCodec lib, NativeRecord.unmarshalJSON lib⟩
  | nativeSecurityBatch => closedMethods (nativeSecurityBatchWire lib) nativeDocumentMaximumBytes
      (NativeSecurityBatch.validate lib)
  | nativeOccurrence => closedMethods (nativeOccurrenceWire lib) nativeDocumentMaximumBytes
      NativeOccurrence.validate
  | nativeCoverageTransition => closedMethods (nativeCoverageTransitionWire lib)
      nativeDocumentMaximumBytes NativeCoverageTransition.validate
  | nativeSourceGap => closedMethods (nativeSourceGapWire lib) nativeDocumentMaximumBytes
      NativeSourceGap.validate

def codec (kind : DocumentKind) : Codec kind.Value := (kind.methods lib).codec

def unmarshalJSON (raw : Bytes) (kind : DocumentKind) : Option kind.Value :=
  (kind.methods lib).unmarshalJSON raw

end DocumentKind

/-- What is accepted is encoded with the canonical form of the document, which is accepted with the
same value. -/
def IsCodec {α : Type} (c : Codec α) (unmarshal : Bytes → Option α) : Prop :=
  ∀ raw v, unmarshal raw = some v → ∃ bytes, canonicalize raw raw.length = .ok bytes ∧
    encodeCanonical c v = some bytes ∧ unmarshal bytes = some v

theorem isCodec_closed {α : Type} (c : Codec α) (maximum : Nat) (valid : α → Bool) :
    IsCodec (closed c maximum valid) (unmarshalClosed c maximum valid) := by
  intro raw v h
  obtain ⟨hDec, hValid⟩ := Option.filter_eq_some_iff.mp h
  obtain ⟨-, doc, hDoc, -, hWritten⟩ := decodeClosedDeliveryDeclaration_eq_some_iff.mp hDec
  refine ⟨utf8 doc.sort.text, hDoc.canonicalize, hWritten, ?_⟩
  exact Option.filter_eq_some_iff.mpr ⟨decodeClosedDeliveryDeclaration_sort hDoc hDec, hValid⟩

theorem isCodec_guarded {α : Type} (c : Codec α) (maximum : Nat) (valid : α → Bool) :
    IsCodec ((closed c maximum valid).guarded valid) (unmarshalClosed c maximum valid) := by
  intro raw v h
  obtain ⟨bytes, hCanonical, hWritten, hBack⟩ := isCodec_closed c maximum valid raw v h
  have hValid : valid v := (Option.filter_eq_some_iff.mp h).2
  have hSame : ((closed c maximum valid).guarded valid).marshal v =
      (closed c maximum valid).marshal v := if_pos hValid
  refine ⟨bytes, hCanonical, ?_, hBack⟩
  rw [encodeCanonical, hSame]
  exact hWritten

theorem decodeRecord_encode (lib : Library) {raw : Bytes} {doc : Doc} {kind : Text} {r : NativeRecord}
    (hDoc : IsDocument raw doc) (h : decodeRecord lib raw kind = some r) (hValid : r.validate) :
    encodeCanonical (nativeRecordCodec lib) r = some (utf8 doc.sort.text) := by
  -- the encoding of the chosen kind is the encoding of the record
  have hWritten {α : Type} {c : Codec α} {v : α}
      (hv : decodeClosedDeliveryDeclaration c raw nativeDocumentMaximumBytes = some v)
      (hSame : (nativeRecordCodec lib).marshal r = c.marshal v) :
      encodeCanonical (nativeRecordCodec lib) r = some (utf8 doc.sort.text) := by
    obtain ⟨-, doc', hDoc', -, hEnc⟩ := decodeClosedDeliveryDeclaration_eq_some_iff.mp hv
    obtain rfl := hDoc'.unique hDoc
    rw [encodeCanonical, hSame]
    exact hEnc
  unfold decodeRecord at h
  split_ifs at h
  all_goals
    obtain ⟨v, hv, rfl⟩ := Option.map_eq_some_iff.mp h
    exact hWritten hv (if_pos hValid)

theorem isCodec_nativeRecord (lib : Library) :
    IsCodec (nativeRecordCodec lib) (NativeRecord.unmarshalJSON lib) := by
  intro raw r h
  obtain ⟨-, doc, kind, hDoc, -, hRec, hValid⟩ :=
    (NativeRecord.unmarshalJSON_eq_some_iff lib).mp h
  refine ⟨utf8 doc.sort.text, hDoc.canonicalize, ?_, NativeRecord.unmarshalJSON_sort lib hDoc h⟩
  exact decodeRecord_encode lib hDoc hRec hValid

/-- A document of any kind that is accepted with a value is encoded again, from that value, with its
own canonical form, and the canonical form is accepted with the same value, which therefore has the
same canonical bytes and fingerprint. -/
theorem closedDocuments_codec (lib : Library) (kind : DocumentKind) (raw : Bytes) (v : kind.Value)
    (h : kind.unmarshalJSON lib raw = some v) : ∃ bytes, canonicalize raw raw.length = .ok bytes ∧
      encodeCanonical (kind.codec lib) v = some bytes ∧ kind.unmarshalJSON lib bytes = some v := by
  cases kind with
  | browserActivityEvent => exact isCodec_guarded _ _ _ raw v h
  | nativeRecord => exact isCodec_nativeRecord lib raw v h
  | _ => exact isCodec_closed _ _ _ raw v h

/-- Every spelling is the same instant. -/
def plainLibrary : Library where
  parseTime := fun _ => some ⟨1000000, 0⟩
  marshalTime := fun _ => none
  decodeBase64 := fun _ => none
  encodeBase64 := fun _ => []
  sha256Fingerprint := fun _ => []
  canonicalBrowserHostPort := fun _ _ _ => none

def openedEvent : BrowserActivityEvent :=
  ⟨1, "browser_opened".toList, List.replicate 26 'b', ⟨⟨1000000, 0⟩, "2026-01-02T03:04:05.120Z".toList⟩,
    none, none, none, none⟩

/-- The event as a client wrote it: a space, its own order, and an instant with a zero at its end. -/
def spacedEvent : Bytes :=
  utf8 ("\x7b\"sequence\": 1,\"client_occurred_at\":\"2026-01-02T03:04:05.120Z\",".toList ++
    "\"kind\":\"browser_opened\",\"policy_revision_id\":\"".toList ++ List.replicate 26 'b' ++ "\"\x7d".toList)

theorem closedDocuments_codec_event : ∃ bytes, canonicalize spacedEvent spacedEvent.length = .ok bytes ∧
    encodeCanonical (browserActivityEventCodec plainLibrary) openedEvent = some bytes ∧
    DocumentKind.browserActivityEvent.unmarshalJSON plainLibrary bytes = some openedEvent :=
  closedDocuments_codec plainLibrary .browserActivityEvent spacedEvent openedEvent (by decide +kernel)

end Proctor.Agreement
