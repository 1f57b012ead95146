import Proctor.ExamPolicy.NativePolicy
import Proctor.Ranges.Scan

/-!
# Delivery lifecycle

The declarations, the closure and the progress of one delivery source. Positions
are the sequence numbers a client allocated; each is received, declared missing,
settled by a terminal bound, or still open. Instants are times in UTC, counted in
milliseconds since the zero time, to which the callers truncate every time.
-/

namespace Proctor.Delivery

open Ranges Json ExamPolicy

abbrev Instant := Int

abbrev SequenceRange := Range

inductive ConflictReason where
  | batchConflict
  | replayWindowExceeded
  | pendingCapacity
  | detailBudgetExhausted
  | declarationConflict
  | browserSourceFence
  | browserActivitySequence
  | browserActivityPolicySemantics
  | browserSourceLimit
  | summaryRateLimited
deriving DecidableEq, Repr

inductive Fault where
  | deliveryInvalid
  | deliveryConflict
  | deliveryExpired
  | conflict (reason : ConflictReason)
  | invalidInput
  | invalidPersistedState
  | quotaInvalid
  | metadataInvalid
  | metadataCapacity
  | notFound
  | forbidden
deriving DecidableEq, Repr

def nativeReceiveWindow : Int := 1024

def browserReceiveWindow : Int := 4096

def receiveWindow (native : Bool) : Int :=
  if native then nativeReceiveWindow else browserReceiveWindow

def securitySafeInt (value : Int) : Bool :=
  0 ≤ value && value ≤ 9007199254740991

def securityInstant (value : Instant) : Bool := (Time.utc value).securityInstant

@[simp]
theorem securityInstant_iff {value : Instant} : securityInstant value = true ↔ value ≠ 0 :=
  Time.securityInstant_utc value

def day : Int := 24 * 60 * 60 * 1000

/-! ## Ranges and declarations -/

def increasingRanges (previous : Int) : List SequenceRange → Bool
  | [] => true
  | r :: rest =>
    !(r.first ≤ 0) && securitySafeInt r.last && !(r.last < r.first) &&
      !(r.first ≤ previous + 1) && increasingRanges r.last rest

def validateSequenceRanges (ranges : List SequenceRange) (maximum : Nat) : Bool :=
  ranges.length ≤ maximum && increasingRanges (-1) ranges

inductive GapReason where
  | spoolCorrupt
  | spoolLost
  | localCapacityExhausted
deriving DecidableEq, Repr

def GapReason.text : GapReason → Text
  | spoolCorrupt => "spool_corrupt"
  | spoolLost => "spool_lost"
  | localCapacityExhausted => "local_capacity_exhausted"

structure DeclareDeliveryGaps where
  declarationID : Text
  expectedDeclarationRevision : Int
  allocatedThroughSequence : Int
  ranges : List SequenceRange
  reason : GapReason
deriving DecidableEq, Repr

def rangeDocument (r : SequenceRange) : Doc :=
  .obj [("first", .int r.first), ("last", .int r.last)]

def DeclareDeliveryGaps.document (d : DeclareDeliveryGaps) : Doc :=
  .obj [("declaration_id", .str d.declarationID),
    ("expected_revision", .int d.expectedDeclarationRevision),
    ("allocated_through_sequence", .int d.allocatedThroughSequence),
    ("ranges", .arr (d.ranges.map rangeDocument)), ("reason", .str d.reason.text)]

def encodedWithin (document : Doc) (maximum : Nat) : Bool :=
  match encodeCanonicalExamDocument document with
  | .ok raw => raw.length ≤ maximum
  | .error _ => false

def DeclareDeliveryGaps.validate (d : DeclareDeliveryGaps) : Bool :=
  isValidAgreementID d.declarationID && securitySafeInt d.expectedDeclarationRevision &&
    securitySafeInt d.allocatedThroughSequence && !d.ranges.isEmpty &&
    validateSequenceRanges d.ranges 32 &&
    d.ranges.getLast?.all (fun r => !(r.last > d.allocatedThroughSequence)) &&
    encodedWithin d.document (8 * 1024)

structure FinalDeliveryDeclaration where
  declarationID : Text
  expectedDeclarationRevision : Int
  finalSequence : Int
deriving DecidableEq, Repr

def FinalDeliveryDeclaration.validate (d : FinalDeliveryDeclaration) : Bool :=
  isValidAgreementID d.declarationID && securitySafeInt d.expectedDeclarationRevision &&
    securitySafeInt d.finalSequence

/-! ## Closure -/

inductive DeliveryCloseReason where
  | submission
  | suspension
  | managerEnd
  | sittingClosed
  | participationEnded
  | securitySessionLost
  | policyCorrection
  | runtimeReset
  | browserDisabled
deriving DecidableEq, Repr

def DeliveryCloseReason.validFor (native : Bool) : DeliveryCloseReason → Bool
  | policyCorrection | runtimeReset | browserDisabled => !native
  | _ => true

inductive FinalBoundaryOrigin where
  | clientDeclared
  | serverKnown
deriving DecidableEq, Repr

structure DeliveryClosure where
  closedAt : Option Instant
  closeReason : Option DeliveryCloseReason
  knownAtClose : Option Int
  finalSequence : Option Int
  finalDeclarationID : Option Text
  finalBoundaryOrigin : Option FinalBoundaryOrigin
  unknownTail : Bool
  uploadExpiresAt : Option Instant
deriving DecidableEq, Repr

def DeliveryClosure.opened : DeliveryClosure :=
  ⟨none, none, none, none, none, none, false, none⟩

def DeliveryClosure.validate (c : DeliveryClosure) (native : Bool) : Bool :=
  match c.closedAt with
  | none =>
    c.closeReason.isNone && c.knownAtClose.isNone && c.finalSequence.isNone &&
      c.finalDeclarationID.isNone && c.finalBoundaryOrigin.isNone && !c.unknownTail &&
      c.uploadExpiresAt.isNone
  | some closedAt =>
    match c.closeReason, c.knownAtClose, c.uploadExpiresAt with
    | some reason, some known, some expires =>
      securityInstant closedAt && reason.validFor native && securitySafeInt known &&
        securityInstant expires && !(expires > closedAt + day) &&
        match c.finalSequence with
        | none => c.unknownTail && c.finalDeclarationID.isNone && c.finalBoundaryOrigin.isNone
        | some final =>
          securitySafeInt final && !(final < known) &&
            match c.finalBoundaryOrigin with
            | some .clientDeclared => !c.unknownTail && c.finalDeclarationID.any isValidAgreementID
            | some .serverKnown =>
              c.finalDeclarationID.isNone && c.unknownTail && decide (final = known)
            | none => false
    | _, _, _ => false

/-- The last position a closed source may still allocate: the declared final
sequence, or what was known at close while none is declared. -/
def DeliveryClosure.boundary (c : DeliveryClosure) : Int :=
  c.finalSequence.getD (c.knownAtClose.getD 0)

def DeliveryClosure.isExpired (c : DeliveryClosure) (instant : Instant) : Bool :=
  c.uploadExpiresAt.any fun expires => !(instant < expires)

def DeliveryClosure.close (c : DeliveryClosure) (native : Bool) (reason : DeliveryCloseReason)
    (known : Int) (instant : Instant) (retirement : Option Instant) : Except Fault DeliveryClosure :=
  if !c.validate native || !reason.validFor native || !securitySafeInt known ||
      !securityInstant instant then .error .deliveryInvalid
  else if c.closedAt.isSome then .ok c
  else if retirement.any fun r => !securityInstant r then .error .deliveryInvalid
  else
    .ok { DeliveryClosure.opened with
      closedAt := some instant
      closeReason := some reason
      knownAtClose := some known
      unknownTail := true
      uploadExpiresAt := some (retirement.elim (instant + day) fun r => min r (instant + day)) }

def DeliveryClosure.declareFinal (c : DeliveryClosure) (native : Bool) (revision allocated : Int)
    (summaryOnly : Bool) (request : FinalDeliveryDeclaration) (instant : Instant) :
    Except Fault (DeliveryClosure × Int) :=
  let known := c.knownAtClose.getD 0
  if !c.validate native || !request.validate || !securitySafeInt revision ||
      !securitySafeInt allocated || !securityInstant instant then .error .deliveryInvalid
  else if c.closedAt.isNone then .error .deliveryConflict
  else if c.isExpired instant then .error .deliveryExpired
  else if c.finalSequence.isSome || request.expectedDeclarationRevision != revision ||
      request.finalSequence < allocated || request.finalSequence < known then
    .error .deliveryConflict
  else if request.finalSequence - known > receiveWindow native ||
      (summaryOnly && request.finalSequence > allocated) then .error .deliveryConflict
  else
    .ok ({ c with
      finalSequence := some request.finalSequence
      finalDeclarationID := some request.declarationID
      finalBoundaryOrigin := some .clientDeclared
      unknownTail := false }, request.finalSequence - allocated)

def DeliveryClosure.expire (c : DeliveryClosure) (native : Bool) (instant : Instant) :
    Except Fault DeliveryClosure :=
  if !c.validate native || !securityInstant instant then .error .deliveryInvalid
  else if c.closedAt.isNone || !c.isExpired instant then .ok c
  else if c.finalSequence.isSome then .ok c
  else
    .ok { c with
      finalSequence := c.knownAtClose
      finalBoundaryOrigin := some .serverKnown
      unknownTail := true }

/-! ## Progress -/

structure DeliveryProgress where
  highestContiguous : Int
  settledThrough : Int
  highestSeen : Int
  missing : List SequenceRange
  missingTruncated : Bool
deriving DecidableEq, Repr

structure ProgressScan where
  through : Int
  settled : Int
  missing : List SequenceRange
  truncated : Bool
deriving DecidableEq, Repr

def ProgressScan.start : ProgressScan :=
  ⟨0, 0, [], false⟩

def ProgressScan.report (s : ProgressScan) (hole : SequenceRange) : ProgressScan :=
  if s.missing.length < 32 then { s with missing := s.missing ++ [hole] }
  else { s with truncated := true }

def ProgressScan.step (s : ProgressScan) (r : SequenceRange) : ProgressScan :=
  let next :=
    if r.first > s.through + 1 then s.report ⟨s.through + 1, r.first - 1⟩
    else if s.missing.isEmpty && !s.truncated && r.last > s.settled then
      { s with settled := r.last }
    else s
  { next with through := max s.through r.last }

def highestSeen (received : List SequenceRange) : Int :=
  (received.getLast?.map Range.last).getD 0

def highestContiguous (received : List SequenceRange) : Int :=
  match received.head? with
  | some r => if r.first = 1 then r.last else 0
  | none => 0

def terminalRange (terminalThrough : Int) : List SequenceRange :=
  if terminalThrough > 0 then [⟨1, terminalThrough⟩] else []

def beyond (ranges : List SequenceRange) (allocated : Int) : Bool :=
  ranges.getLast?.any fun r => r.last > allocated

def browserAttemptPositionLimit : Int := 200000

def deliveryMissingIntervalLimit : Int := 4096

def resolveDeliveryProgress (allocated : Int) (received missing : List SequenceRange)
    (terminalThrough : Int) : Except Fault DeliveryProgress :=
  if !securitySafeInt allocated || !securitySafeInt terminalThrough ||
      terminalThrough > allocated ||
      !validateSequenceRanges received browserAttemptPositionLimit.toNat ||
      !validateSequenceRanges missing deliveryMissingIntervalLimit.toNat then
    .error .deliveryInvalid
  else if beyond received allocated || beyond missing allocated then .error .deliveryInvalid
  else if meets received missing then .error .deliveryConflict
  else
    let all := sortByFirst (received ++ missing ++ terminalRange terminalThrough)
    let scanned := all.foldl ProgressScan.step ProgressScan.start
    let last := if scanned.through < allocated then
        scanned.report ⟨scanned.through + 1, allocated⟩ else scanned
    .ok ⟨highestContiguous received, scanned.settled, highestSeen received, last.missing,
      last.truncated⟩

def DeliveryProgress.windowBase (p : DeliveryProgress) : Int :=
  max p.highestContiguous p.settledThrough

def overlapsAny (r : SequenceRange) (set : List SequenceRange) : Bool :=
  set.any fun prior => r.first ≤ prior.last && prior.first ≤ r.last

def validateDeliveryGapPlacement (native : Bool) (progress : DeliveryProgress)
    (allocated revision : Int) (closure : DeliveryClosure) (summaryOnly : Bool)
    (request : DeclareDeliveryGaps) (received terminal : List SequenceRange) (instant : Instant) :
    Except Fault Unit :=
  if !request.validate || !closure.validate native || !securitySafeInt allocated ||
      !securitySafeInt revision || !securityInstant instant then .error .deliveryInvalid
  else if request.expectedDeclarationRevision != revision ||
      (summaryOnly && request.allocatedThroughSequence > allocated) then .error .deliveryConflict
  else if closure.closedAt.isSome && closure.isExpired instant then .error .deliveryExpired
  else if closure.closedAt.isSome && request.allocatedThroughSequence > closure.boundary then
    .error .deliveryConflict
  else if request.ranges.any fun r => r.first ≤ progress.windowBase ||
      r.last - progress.windowBase > receiveWindow native || overlapsAny r received ||
      overlapsAny r terminal then .error .deliveryConflict
  else .ok ()

/-! ## Unretained records -/

structure UnretainedDeliverySummary where
  summarySequence : Int
  unretainedRecordCount : Int
  countComplete : Bool
  firstUnretainedAt : Option Instant
  lastUnretainedAt : Option Instant
deriving DecidableEq, Repr

def UnretainedDeliverySummary.validate (s : UnretainedDeliverySummary) : Bool :=
  !(s.summarySequence ≤ 0) && securitySafeInt s.summarySequence &&
    securitySafeInt s.unretainedRecordCount && s.firstUnretainedAt.all securityInstant &&
    s.lastUnretainedAt.all securityInstant

def UnretainedDeliverySummary.compare (s next : UnretainedDeliverySummary) : Except Fault Bool :=
  if !s.validate || !next.validate then .error .deliveryInvalid
  else if s.summarySequence = next.summarySequence then
    if s = next then .ok true else .error .deliveryConflict
  else if next.summarySequence < s.summarySequence ||
      next.unretainedRecordCount < s.unretainedRecordCount ||
      (!s.countComplete && next.countComplete) then .error .deliveryConflict
  else .ok false

end Proctor.Delivery
