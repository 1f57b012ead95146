import Proctor.Delivery.State

/-!
# Browser delivery

The operations on the Browser sources of an Attempt that touch nothing but the
Browser family: settlement, close, the lock that closes a source whose
Participation ended, the budget latch and the append of events.
-/

namespace Proctor.Delivery

open Ranges ExamPolicy

inductive Refusal where
  | detailBudgetExhausted
  | sequenceLimit
  | sourceBudgetExhausted
deriving DecidableEq, Repr

inductive Outcome where
  | accepted
  | refused (code : Refusal)
  | capacity
deriving DecidableEq, Repr

section Settlement

variable {α : Type}

def maximumAttemptBrowserSources : Nat :=
  (deliveryMetadataLimitBytes / browserOwnerReservationBytes).toNat

def browserDeliveryRanges (s : DeliverySource α) :
    Except Fault (List SequenceRange × List SequenceRange) := do
  require (s.rows.length ≤ 50000) .invalidPersistedState
  require ((s.declarations.filter fun record => record.declaration.isGaps).length ≤ 4096)
    .invalidPersistedState
  require (s.declaredRanges.length ≤ 4096) .invalidPersistedState
  return (s.received, s.gaps)

structure BrowserSourceStatus where
  allocated : Int
  terminal : Int
  closure : DeliveryClosure
  progress : DeliveryProgress
  summaryOnly : Bool
  summary : Option UnretainedDeliverySummary
  serverTime : Instant

def BrowserSourceStatus.validate (v : BrowserSourceStatus) : Bool :=
  let p := v.progress
  !(p.highestContiguous < 0) && !(p.settledThrough < p.highestContiguous) &&
    !(p.highestSeen < p.highestContiguous) && !(v.allocated < p.highestSeen) &&
    !(v.allocated < p.settledThrough) && !(v.allocated > browserParticipationPositionLimit) &&
    !(v.terminal < 0) && !(v.terminal > v.allocated) && validateSequenceRanges p.missing 32 &&
    p.missing.all (fun r => !(r.first ≤ p.settledThrough) && !(r.last > v.allocated)) &&
    v.closure.validate false && v.summary.all UnretainedDeliverySummary.validate

def browserSourceSettlementFacts (status : BrowserSourceStatus) (unresolvedProvenance : Bool) :
    Except Fault (Bool × Bool) :=
  let p := status.progress
  let beforeDeadline := status.closure.uploadExpiresAt.all fun expires => status.serverTime < expires
  let pending := beforeDeadline && (status.closure.finalSequence.isNone ||
    (!p.missing.isEmpty && !status.summaryOnly))
  let incomplete := p.settledThrough > p.highestContiguous || status.closure.unknownTail ||
    unresolvedProvenance || status.terminal > p.highestContiguous ||
    status.summary.any (fun summary => summary.unretainedRecordCount > 0 || !summary.countComplete) ||
    status.closure.finalSequence.any (fun final => !pending && p.highestContiguous < final)
  if !status.validate then .error .deliveryInvalid else .ok (pending, incomplete)

/-- A closed source whose upload window is over settles terminally. -/
def expireBrowserSource (now : Instant) (s : DeliverySource α) : Except Fault (DeliverySource α) :=
  if s.isClosed && s.closure.isExpired now then do
    let closure ← persisted (s.closure.expire false now)
    return { s with
      closure := closure
      terminal := max s.allocated s.seen
      allocated := max s.allocated s.seen }
  else .ok s

/-- The source as it is stored once its expiry is applied, and its status. -/
def browserSourceState (now : Instant) (summaryOnly : Bool) (s : DeliverySource α) :
    Except Fault (DeliverySource α × BrowserSourceStatus) := do
  require (s.closure.validate false) .invalidPersistedState
  let stored ← expireBrowserSource now s
  let ranges ← browserDeliveryRanges stored
  let allocated := max s.allocated s.seen
  let progress ← persisted
    (resolveDeliveryProgress allocated ranges.1 ranges.2 stored.terminal)
  let status : BrowserSourceStatus :=
    ⟨allocated, stored.terminal, stored.closure, progress, summaryOnly, s.summary, now⟩
  require status.validate .invalidPersistedState
  return (stored, status)

variable (reading : Reading α)

def retainInterpreted (source participation : Nat) (rows : List (Row α)) (l : IntegrityLedger) :
    Except Fault IntegrityLedger :=
  (rows.filterMap (Row.qualifying reading source participation)).foldlM
    IntegrityLedger.retainBrowserIntegrity l

def advanceBrowserInterpretation (f : FamilyState α) (j : Nat) (through : Int) :
    Except Fault (FamilyState α) := do
  let s ← f.source j
  require ((s.rows.filter fun row => !row.interpreted && row.sequence ≤ through).length ≤ 50000)
    .invalidPersistedState
  let rows ← advanceRows reading through (fun _ => false) [] s.rows
  let integrity ← retainInterpreted reading j s.participation (interpretedRows through s.rows rows)
    f.integrity
  let released := releasedBytes through s.rows
  require (!(released > 0) || released ≤ f.pending) .invalidPersistedState
  return { f.putSource j { s with rows := rows } with
    pending := if released > 0 then f.pending - released else f.pending
    integrity := integrity }

def unresolvedProvenance (rows : List (Row α)) : Bool :=
  rows.any fun row => row.interpreted && reading.unresolved row.payload

def FamilyState.mark (f : FamilyState α) (j : Nat) (s : DeliverySource α) (facts : Bool × Bool) :
    FamilyState α :=
  let marked := f.putSource j { s with
    settlementPending := facts.1
    settlementIncomplete := facts.2 }
  { marked with settlement := BrowserSubmissionSettlement.of marked.sources }

def updateBrowserSourceSettlement (f : FamilyState α) (j : Nat) (status : BrowserSourceStatus) :
    Except Fault (FamilyState α) := do
  let s ← f.source j
  let facts ← persisted (browserSourceSettlementFacts status (unresolvedProvenance reading s.rows))
  require (f.sources.length ≤ maximumAttemptBrowserSources) .invalidPersistedState
  return f.mark j s facts

def settleBrowserSource (now : Instant) (f : FamilyState α) (j : Nat) :
    Except Fault (FamilyState α) := do
  let s ← f.source j
  let counters ← f.counters s.participation
  let state ← browserSourceState now (f.summaryOnly counters) s
  let progress := state.2.progress
  let advanced ← advanceBrowserInterpretation reading (f.putSource j state.1) j
    progress.settledThrough
  let settled ← advanced.source j
  updateBrowserSourceSettlement reading (advanced.putSource j { settled with
    contiguous := progress.highestContiguous
    settled := progress.settledThrough }) j state.2

def settleBrowserSources (now : Instant) (f : FamilyState α) (ids : List Nat) :
    Except Fault (FamilyState α) :=
  ids.foldlM (settleBrowserSource reading now) f

def FamilyState.indices (f : FamilyState α) (chosen : DeliverySource α → Bool) : List Nat :=
  (List.range f.sources.length).filter fun j => f.sources[j]?.any chosen

/-- Exhaustion settles terminally every source of the scope, an empty
Participation selecting the whole Attempt. -/
def settleExhaustedBrowserSources (now : Instant) (f : FamilyState α) (part : Option Nat) :
    Except Fault (FamilyState α) := do
  let chosen := fun s : DeliverySource α => part.all fun p => s.participation = p
  let ids := f.indices chosen
  require (ids.length ≤ maximumAttemptBrowserSources) .invalidPersistedState
  settleBrowserSources reading now (f.terminate chosen) ids

def latchBrowserDelivery (now : Instant) (f : FamilyState α) (part : Nat)
    (reason : DeliveryStopReason) (attemptScope : Bool) : Except Fault (FamilyState α) :=
  if attemptScope then settleExhaustedBrowserSources reading now (f.stopAttempt reason) none
  else settleExhaustedBrowserSources reading now (f.stopParticipation part reason) (some part)

def closeBrowserSource (now : Instant) (parts : List Participation) (f : FamilyState α) (j : Nat)
    (reason : DeliveryCloseReason) (instant : Instant) : Except Fault (FamilyState α) := do
  let s ← f.source j
  let p ← found parts[s.participation]?
  require (s.closure.validate false) .invalidPersistedState
  let late := p.lease < instant
  let closure ← s.closure.close false (if late then .participationEnded else reason)
    (max s.allocated s.seen) (max (if late then p.lease else instant) s.startedAt) none
  settleBrowserSource reading now (f.putSource j { s with
    closure := closure
    endedAt := closure.closedAt
    allocated := max s.allocated s.seen }) j

def closeBrowserSources (now : Instant) (parts : List Participation) (f : FamilyState α)
    (ids : List Nat) (reason : DeliveryCloseReason) (instant : Instant) :
    Except Fault (FamilyState α) :=
  ids.foldlM (fun f j => closeBrowserSource reading now parts f j reason instant) f

def closeParticipationBrowserSources (now : Instant) (parts : List Participation)
    (f : FamilyState α) (p : Nat) (reason : DeliveryCloseReason) (instant : Instant) :
    Except Fault (FamilyState α) :=
  closeBrowserSources reading now parts f
    ((f.indices fun s => s.participation = p).take 49) reason instant

def closeSittingBrowserSources (now : Instant) (parts : List Participation) (f : FamilyState α)
    (enabled : Bool) : Except Fault (FamilyState α) :=
  closeBrowserSources reading now parts f (f.indices fun s => !s.isClosed)
    (if enabled then .policyCorrection else .browserDisabled) now

/-- Every source is closed, and settled once more after its close. -/
def settleSubmissionBrowserSources (now : Instant) (parts : List Participation)
    (f : FamilyState α) (reason : DeliveryCloseReason) : Except Fault (FamilyState α) := do
  let ids := f.indices fun _ => true
  require (ids.length ≤ maximumAttemptBrowserSources) .invalidPersistedState
  ids.foldlM (fun f j => do
    let closed ← closeBrowserSource reading now parts f j reason now
    settleBrowserSource reading now closed j) f

def overdueClose (s : DeliverySource α) (p : Participation) : Instant × DeliveryCloseReason :=
  match s.endedAt with
  | some ended => if ended < p.overdueClose.1 then (ended, p.overdueClose.2) else p.overdueClose
  | none => p.overdueClose

/-- `guarded` is the answer of the live Candidate guard. -/
def lockBrowserDelivery (now : Instant) (parts : List Participation) (f : FamilyState α) (j : Nat)
    (guarded : Bool) : Except Fault (FamilyState α) := do
  require (!f.retired) .deliveryExpired
  let s ← f.source j
  let p ← found parts[s.participation]?
  require (s.closure.validate false) .invalidPersistedState
  if s.isClosed then .ok f
  else if s.endedAt.isSome || p.isOver now then
    closeBrowserSource reading now parts f j (overdueClose s p).2 (overdueClose s p).1
  else do
    require guarded .forbidden
    return f

end Settlement

/-! ## Append -/

section Append

variable {α : Type}

structure BrowserEvent (α : Type) where
  sequence : Int
  digest : Text
  bytes : Nat
  metadataBytes : Nat
  payload : α

def BrowserEvent.row (e : BrowserEvent α) : Row α :=
  ⟨⟨e.sequence, 1, e.bytes, false⟩, e.digest, e.payload⟩

/-- `historical` marks the delivery after the live connection ended, and `fenced`
tells whether the request names the source's policy and generation. -/
structure BrowserAppend (α : Type) where
  source : Nat
  historical : Bool
  guarded : Bool
  fenced : Bool
  events : List (BrowserEvent α)

def increasingSequences (previous : Int) : List (BrowserEvent α) → Bool
  | [] => true
  | e :: rest =>
    previous < e.sequence && securitySafeInt e.sequence && increasingSequences e.sequence rest

def BrowserAppend.validate (input : BrowserAppend α) : Bool :=
  !input.events.isEmpty && input.events.length ≤ 64 && increasingSequences 0 input.events

def consecutive : List (BrowserEvent α) → Bool
  | e :: next :: rest => next.sequence = e.sequence + 1 && consecutive (next :: rest)
  | _ => true

/-- Whether the events continue the settled prefix without a hole. -/
def BrowserAppend.repairs (input : BrowserAppend α) (windowBase : Int) : Bool :=
  input.events.head?.any (fun e => e.sequence = windowBase + 1) && consecutive input.events

def checkBrowserAppendPosition (status : BrowserSourceStatus) (summaryOnly : Bool)
    (gaps : List SequenceRange) (sequence : Int) : Except Fault Unit :=
  if sequence ≤ status.terminal || summaryOnly then .error (.conflict .detailBudgetExhausted)
  else if gaps.any fun r => r.first ≤ sequence && sequence ≤ r.last then
    .error (.conflict .declarationConflict)
  else if status.closure.closedAt.isSome && sequence > status.closure.boundary then
    .error (.conflict .replayWindowExceeded)
  else if sequence > status.progress.windowBase + browserReceiveWindow then
    .error (.conflict .replayWindowExceeded)
  else .ok ()

variable (reading : Reading α)

def admitBrowserAppendEvent (s : DeliverySource α) (status : BrowserSourceStatus)
    (summaryOnly : Bool) (gaps : List SequenceRange) (e : BrowserEvent α) : Except Fault Bool :=
  match s.rows.find? fun row => row.sequence = e.sequence with
  | some row => do
    require (row.digest = e.digest) (.conflict .browserActivitySequence)
    return false
  | none => do
    checkBrowserAppendPosition status summaryOnly gaps e.sequence
    reading.admission s.rows e.row
    return true

def admitBrowserAppendEvents (s : DeliverySource α) (status : BrowserSourceStatus)
    (summaryOnly : Bool) (gaps : List SequenceRange) :
    List (BrowserEvent α) → Except Fault (List (BrowserEvent α))
  | [] => .ok []
  | e :: rest => do
    let fresh ← admitBrowserAppendEvent reading s status summaryOnly gaps e
    let admitted ← admitBrowserAppendEvents s status summaryOnly gaps rest
    return if fresh then e :: admitted else admitted

def eventBytes (events : List (BrowserEvent α)) : Int :=
  (events.map fun e => (e.bytes : Int)).sum

def eventMetadataBytes (events : List (BrowserEvent α)) : Int :=
  (events.map fun e => (e.metadataBytes : Int)).sum

def admittedThrough (allocated : Int) (fresh : List (BrowserEvent α)) : Int :=
  fresh.foldl (fun through e => max through e.sequence) allocated

def FamilyState.recoverable (f : FamilyState α) : Bool :=
  f.sources.any fun s => s.allocated > max (max s.contiguous s.settled) s.terminal

def checkBrowserPendingCapacity (f : FamilyState α) (input : BrowserAppend α) (windowBase : Int)
    (bytes : Int) (part attempt : DeliveryQuotaUsage) : Except Fault Unit :=
  let repair := input.repairs windowBase
  let recoverable := f.recoverable || !repair
  require
    (canRetainPendingDelivery f.pending part.retainedBytes part.byteLimit bytes repair recoverable &&
      canRetainPendingDelivery f.pending attempt.retainedBytes attempt.byteLimit bytes repair
        recoverable)
    (.conflict .pendingCapacity)

def FamilyState.insertEvents (f : FamilyState α) (j : Nat) (s : DeliverySource α)
    (fresh : List (BrowserEvent α)) (allocated delta : Int) : FamilyState α :=
  { (f.charge s.participation fresh.length (eventBytes fresh) delta).putSource j { s with
      rows := fresh.foldl (fun rows e => insertRow e.row rows) s.rows
      allocated := allocated
      seen := max s.seen ((fresh.getLast?.map BrowserEvent.sequence).getD 0) } with
    pending := f.pending + eventBytes fresh }

def refuseBrowserAppendOverBudget (now : Instant) (f : FamilyState α) (p : Nat)
    (nextPart nextAttempt : DeliveryQuotaUsage) : Except Fault (FamilyState α × Outcome) :=
  match if nextAttempt.summaryOnly then nextAttempt.stopReason else nextPart.stopReason with
  | none => .error .invalidPersistedState
  | some reason => do
    let latched ← latchBrowserDelivery reading now f p reason nextAttempt.summaryOnly
    return (latched, .refused (if reason = .positions then .sequenceLimit
      else .detailBudgetExhausted))

def retainBrowserAppendRecords (now : Instant) (f : FamilyState α) (input : BrowserAppend α)
    (s : DeliverySource α) (status : BrowserSourceStatus) (fresh : List (BrowserEvent α)) :
    Except Fault (FamilyState α × Outcome) := do
  let counters ← f.counters s.participation
  let part := counters.usage false false
  let attempt := f.attempt.usage false true
  require (part.validate && attempt.validate) .deliveryInvalid
  let allocated := admittedThrough status.allocated fresh
  let delta := allocated - status.allocated
  let nextPart ← part.charge fresh.length (eventBytes fresh) delta
  let nextAttempt ← attempt.charge fresh.length (eventBytes fresh) delta
  if nextPart.summaryOnly || nextAttempt.summaryOnly then
    refuseBrowserAppendOverBudget reading now f s.participation nextPart nextAttempt
  else do
    checkBrowserPendingCapacity f input status.progress.windowBase (eventBytes fresh) part attempt
    let settled ← settleBrowserSource reading now
      (f.insertEvents input.source s fresh allocated delta) input.source
    return (settled, .accepted)

/-- The acknowledgement settles the source; it interprets the settled prefix a
second time, when nothing of it is left to interpret. -/
def performBrowserAppend (now : Instant) (parts : List Participation) (f : FamilyState α)
    (input : BrowserAppend α) : Except Fault (FamilyState α × Outcome) := do
  require input.validate .invalidInput
  let f ← lockBrowserDelivery reading now parts f input.source input.guarded
  let s ← f.source input.source
  let counters ← f.counters s.participation
  let state ← browserSourceState now (f.summaryOnly counters) s
  let status := state.2
  require (input.fenced && status.closure.closedAt.isSome == input.historical)
    (.conflict .browserSourceFence)
  require (!status.closure.isExpired now) .deliveryExpired
  let fresh ← admitBrowserAppendEvents reading s status (f.summaryOnly counters) s.gaps input.events
  require (eventMetadataBytes fresh ≤ 64 * 1024 && eventBytes fresh ≤ 320 * 1024) .invalidInput
  if fresh.isEmpty then do
    let settled ← settleBrowserSource reading now f input.source
    return (settled, .accepted)
  else retainBrowserAppendRecords reading now f input s status fresh

end Append

end Proctor.Delivery
