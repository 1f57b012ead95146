import Proctor.Delivery.Browser

/-!
# Native delivery

A Participation owns one Native stream, so streams and Participations share their
indices. Closing a stream closes the Browser sources of its Participation, and a
metadata latch stops both families, so these operations work on the Attempt.
-/

namespace Proctor.Delivery

open Ranges ExamPolicy

section Streams

variable {β : Type}

/-- Whether a position before a row of the settled prefix was declared missing or
settled terminally. -/
def DeliverySource.missingBefore (s : DeliverySource β) (sequence : Int) : Bool :=
  (s.terminal > 0 && sequence > 1) || s.gaps.any fun r => r.first < sequence

def advanceNativeInterpretation (reading : Reading β) (f : FamilyState β) (p : Nat) :
    Except Fault (FamilyState β) := do
  let s ← f.source p
  let progress ← persisted s.progress
  let rows ← advanceRows reading progress.settledThrough s.missingBefore [] s.rows
  return { f.putSource p { s with
      rows := rows
      contiguous := progress.highestContiguous
      settled := progress.settledThrough } with
    pending := f.pending - releasedBytes progress.settledThrough s.rows }

def latchNativeDelivery (f : FamilyState β) (p : Nat) (reason : DeliveryStopReason)
    (attemptScope : Bool) : FamilyState β :=
  if attemptScope then (f.stopAttempt reason).terminate fun _ => true
  else (f.stopParticipation p reason).terminate fun s => s.participation = p

/-- A Native charge counts the positions of a Participation in the stream itself. -/
def FamilyState.chargeStream (f : FamilyState β) (p : Nat) (records bytes positions : Int) :
    FamilyState β :=
  { f with
    participations := f.participations.modify p (ScopeCounters.charge records bytes 0)
    attempt := f.attempt.charge records bytes positions }

end Streams

section Close

variable {α β : Type} (browserReading : Reading α)

def closeNativeDelivery (a : Attempt α β) (p : Nat) (reason : DeliveryCloseReason)
    (instant : Instant) : Except Fault (Attempt α β) := do
  let s ← a.native.source p
  let part ← a.participation p
  require (s.closure.validate true) .invalidPersistedState
  let late := part.lease < instant
  let reason := if late then .participationEnded else reason
  let instant := if late then part.lease else instant
  let closure ← s.closure.close true reason s.allocated instant none
  let browser ← closeParticipationBrowserSources browserReading a.now a.participations a.browser p
    reason instant
  return { a with
    native := a.native.putSource p { s with closure := closure }
    browser := browser }

/-- Expiry is authoritative even when its asynchronous worker has not run. -/
def closeEndedNativeDelivery (a : Attempt α β) (p : Nat) (s : DeliverySource β) (guarded : Bool) :
    Except Fault (Attempt α β) := do
  let part ← a.participation p
  if s.isClosed then return a
  else if part.isOver a.now then
    closeNativeDelivery browserReading a p part.overdueClose.2 part.overdueClose.1
  else do
    require guarded .forbidden
    return a

def expireNativeDelivery (a : Attempt α β) (p : Nat) : Except Fault (Attempt α β) := do
  let s ← a.native.source p
  if s.isClosed && s.closure.isExpired a.now then do
    let closure ← s.closure.expire true a.now
    return { a with native := a.native.putSource p { s with
      closure := closure
      terminal := s.allocated } }
  else return a

def lockNativeDelivery (a : Attempt α β) (p : Nat) (guarded : Bool) :
    Except Fault (Attempt α β) := do
  require (!a.native.retired) .deliveryExpired
  let s ← a.native.source p
  require (s.closure.validate true) .invalidPersistedState
  let closed ← closeEndedNativeDelivery browserReading a p s guarded
  expireNativeDelivery closed p

def latchDeliveryMetadata (a : Attempt α β) : Except Fault (Attempt α β) := do
  let browser ← settleExhaustedBrowserSources browserReading a.now
    (a.browser.stopAttempt .metadata) none
  return { a with
    native := (a.native.stopAttempt .metadata).terminate fun _ => true
    browser := browser }

end Close

/-! ## Append -/

section Append

variable {α β : Type}

/-- A submitted batch with its fingerprint, the sizes it is counted at and the
size of the historical resets it would add. `fenced` tells whether it names the
admitted session and policy, and `integrityRetired` whether it reports an
occurrence after the integrity records of the Submission were retired. -/
structure NativeAppend (β : Type) where
  stream : Nat
  guarded : Bool
  fenced : Bool
  integrityRetired : Bool
  sequence : Int
  priorAcknowledgement : Int
  digest : Text
  records : Nat
  bytes : Nat
  metadataBytes : Nat
  resetBytes : Nat
  payload : β

def NativeAppend.row (input : NativeAppend β) : Row β :=
  ⟨⟨input.sequence, input.records, input.bytes, false⟩, input.digest, input.payload⟩

def checkNativeAppendPosition (s : DeliverySource β) (input : NativeAppend β) :
    Except Fault Int := do
  let progress ← persisted s.progress
  if input.priorAcknowledgement > progress.highestContiguous then
    .error (.conflict .batchConflict)
  else if input.sequence ≤ s.terminal ||
      s.gaps.any fun r => r.first ≤ input.sequence && input.sequence ≤ r.last then
    .error (.conflict .batchConflict)
  else if input.sequence ≤ progress.windowBase ||
      input.sequence > progress.windowBase + nativeReceiveWindow then
    .error (.conflict .replayWindowExceeded)
  else if s.isClosed && input.sequence > s.closure.boundary then
    .error (.conflict .replayWindowExceeded)
  else .ok progress.windowBase

def storeNativeBatchResets (metadata : Int) (resetBytes : Nat) : Except Fault Int :=
  if resetBytes > 0 then reserveDeliveryMetadata metadata resetBytes else .ok metadata

def FamilyState.insertBatch (f : FamilyState β) (s : DeliverySource β) (input : NativeAppend β)
    (delta : Int) : FamilyState β :=
  { (f.chargeStream input.stream input.records input.bytes delta).putSource input.stream { s with
      rows := insertRow input.row s.rows
      allocated := s.allocated + delta } with
    pending := f.pending + input.bytes }

/-- The quotas of a batch start from the retained counters alone: the latches were
checked before. -/
def nativeQuotas (s : DeliverySource β) (counters attempt : ScopeCounters) :
    DeliveryQuotaUsage × DeliveryQuotaUsage :=
  ({ newDeliveryQuotaUsage true false with
      retainedRecords := counters.records
      retainedBytes := counters.bytes
      allocatedPositions := s.allocated },
    { newDeliveryQuotaUsage true true with
      retainedRecords := attempt.records
      retainedBytes := attempt.bytes
      allocatedPositions := attempt.positions })

def refuseNativeAppendOverBudget (f : FamilyState β) (p : Nat)
    (nextPart nextAttempt : DeliveryQuotaUsage) : Except Fault (FamilyState β) :=
  match if nextAttempt.summaryOnly then nextAttempt.stopReason else nextPart.stopReason with
  | none => .error .invalidPersistedState
  | some reason => .ok (latchNativeDelivery f p reason nextAttempt.summaryOnly)

variable (browserReading : Reading α) (nativeReading : Reading β)

/-- The counted batch is charged and stored, its neighbours are checked, and the
settled prefix is interpreted. -/
def retainNativeAppendBatch (a : Attempt α β) (input : NativeAppend β) (s : DeliverySource β)
    (base metadata : Int) : Except Fault (Attempt α β × Outcome) := do
  require (input.metadataBytes ≤ 64 * 1024 && input.bytes ≤ 320 * 1024) .deliveryInvalid
  let counters ← a.native.counters input.stream
  let delta := max 0 (input.sequence - s.allocated)
  let quotas := nativeQuotas s counters a.native.attempt
  let nextPart ← quotas.1.charge input.records input.bytes delta
  let nextAttempt ← quotas.2.charge input.records input.bytes delta
  if nextPart.summaryOnly || nextAttempt.summaryOnly then do
    let latched ← refuseNativeAppendOverBudget a.native input.stream nextPart nextAttempt
    return ({ a with native := latched }, .refused .detailBudgetExhausted)
  else do
    let repair := decide (input.sequence = base + 1)
    require
      (canRetainPendingDelivery a.native.pending counters.bytes deliveryParticipationByteLimit
          input.bytes repair !repair &&
        canRetainPendingDelivery a.native.pending a.native.attempt.bytes deliveryAttemptByteLimit
          input.bytes repair !repair)
      (.conflict .pendingCapacity)
    let stored := a.native.insertBatch s input delta
    let rows := insertRow input.row s.rows
    nativeReading.accept rows
      (highestContiguous (coalesce (rows.map fun row => ⟨row.sequence, row.sequence⟩))) input.row
    let native ← advanceNativeInterpretation nativeReading stored input.stream
    return ({ a with native := native, metadata := metadata }, .accepted)

def finishNativeAppend (a : Attempt α β) (p : Nat) (guarded : Bool) (outcome : Outcome) :
    Except Fault (Attempt α β × Outcome) := do
  let locked ← lockNativeDelivery browserReading a p guarded
  let s ← locked.native.source p
  require (!s.closure.isExpired locked.now) .deliveryExpired
  let native ← advanceNativeInterpretation nativeReading locked.native p
  return ({ locked with native := native }, outcome)

def admitNativeAppend (a : Attempt α β) (input : NativeAppend β) (s : DeliverySource β) :
    Except Fault (Attempt α β × Outcome) := do
  let base ← checkNativeAppendPosition s input
  nativeReading.admission s.rows input.row
  match storeNativeBatchResets a.metadata input.resetBytes with
  | .error .metadataCapacity => do
    let latched ← latchDeliveryMetadata browserReading a
    return (latched, .capacity)
  | .error fault => .error fault
  | .ok metadata => retainNativeAppendBatch nativeReading a input s base metadata

def answerNativeAppend (a : Attempt α β) (input : NativeAppend β) (s : DeliverySource β) :
    Except Fault (Attempt α β × Outcome) :=
  match s.rows.find? fun row => row.sequence = input.sequence with
  | some row => do
    require (row.digest = input.digest) (.conflict .batchConflict)
    return (a, .accepted)
  | none => do
    require (!input.integrityRetired) .deliveryExpired
    let counters ← a.native.counters input.stream
    if a.native.summaryOnly counters then return (a, .refused .detailBudgetExhausted)
    else admitNativeAppend browserReading nativeReading a input s

def executeNativeAppend (a : Attempt α β) (input : NativeAppend β) :
    Except Fault (Attempt α β × Outcome) := do
  let a ← lockNativeDelivery browserReading a input.stream input.guarded
  let s ← a.native.source input.stream
  require (!s.closure.isExpired a.now) .deliveryExpired
  require input.fenced (.conflict .batchConflict)
  let answer ← answerNativeAppend browserReading nativeReading a input s
  finishNativeAppend browserReading nativeReading answer.1 input.stream input.guarded answer.2

end Append

end Proctor.Delivery
