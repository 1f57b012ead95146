import Proctor.Delivery.Declarations

/-!
# The delivery operations of one Attempt

The remaining transactions of the delivery store, and the machine that runs any
sequence of operations. A transaction that fails leaves the state as it was.
The clock only moves forward, and is read once in a transaction.
-/

namespace Proctor.Delivery

open Ranges ExamPolicy

/-! ## Security controls -/

inductive DeliveryFamily where
  | browser
  | native
deriving DecidableEq, Repr

structure DeliveryWatermark where
  family : DeliveryFamily
  source : Nat
  acknowledgedThrough : Int
  allocatedThrough : Int
deriving DecidableEq, Repr

/-- A security control as far as it concerns delivery: whether its guards and
fences pass, whether its receipt is already in the ledger, the size of the resets
it would add, its watermarks, and the lease a renewal grants. -/
structure SecurityControl where
  participation : Nat
  guarded : Bool
  processed : Bool
  resetBytes : Nat
  watermarks : List DeliveryWatermark
  lease : Option Instant

section Control

variable {α β : Type}

def checkControlWatermark (a : Attempt α β) (p : Nat) (mark : DeliveryWatermark) :
    Except Fault Unit :=
  match mark.family with
  | .browser => do
    let s ← a.browser.source mark.source
    require (s.participation = p) .notFound
    require (!(mark.acknowledgedThrough > s.contiguous)) .invalidInput
  | .native => do
    require (mark.source = p) .notFound
    let s ← a.native.source p
    require (!(mark.acknowledgedThrough > s.contiguous)) .invalidInput

def applyNativeControlWatermark (f : FamilyState β) (p : Nat) (mark : DeliveryWatermark) :
    Except Fault (FamilyState β × Bool) := do
  let s ← f.source p
  let counters ← f.counters p
  let delta := mark.allocatedThrough - s.allocated
  let whole := decide (delta > positionLimitOf true true - f.attempt.positions)
  if delta ≤ 0 then return (f, false)
  else if f.summaryOnly counters || delta > positionLimitOf true false - s.allocated || whole then
    return (if whole then f.stopAttempt .positions else f.stopParticipation p .positions, true)
  else
    return ((f.chargeStream p 0 0 delta).putSource p { s with allocated := mark.allocatedThrough },
      false)

/-- An exhausted owner settles its positions terminally when the control is stored. -/
def storeSecurityControl (f : FamilyState β) (p : Nat) : Except Fault (FamilyState β) := do
  let counters ← f.counters p
  let owner := if f.summaryOnly counters then f.terminate fun s => s.participation = p else f
  return if f.attempt.summaryOnly then owner.terminate fun _ => true else owner

variable (browserReading : Reading α)

def latchUnlessSummaryOnly (now : Instant) (f : FamilyState α) (p : Nat)
    (counters : ScopeCounters) (whole : Bool) : Except Fault (FamilyState α) :=
  if f.summaryOnly counters then .ok f
  else latchBrowserDelivery browserReading now f p .positions whole

/-- A rejected watermark latches the exhausted scope unless one is latched already,
and settles every source with a terminal bound beyond its settled position. -/
def rejectBrowserControlWatermark (now : Instant) (f : FamilyState α) (p : Nat)
    (counters : ScopeCounters) (whole : Bool) : Except Fault (FamilyState α) := do
  let latched ← latchUnlessSummaryOnly browserReading now f p counters whole
  let ids := latched.indices fun s => s.terminal > s.settled
  require (ids.length ≤ maximumAttemptBrowserSources) .invalidPersistedState
  settleBrowserSources browserReading now latched ids

/-- A control names each source once, so the row is the one its selectors were
checked against. -/
def applyBrowserControlWatermark (now : Instant) (f : FamilyState α) (p : Nat)
    (mark : DeliveryWatermark) : Except Fault (FamilyState α × Bool) := do
  let s ← f.source mark.source
  let delta := mark.allocatedThrough - s.allocated
  if s.isClosed then return (f, true)
  else if delta ≤ 0 then return (f, false)
  else do
    let counters ← f.counters p
    require ((counters.usage false false).validate && (f.attempt.usage false true).validate)
      .deliveryInvalid
    let whole := decide (delta > positionLimitOf false true - f.attempt.positions)
    if f.summaryOnly counters || delta > positionLimitOf false false - counters.positions ||
        whole then do
      let settled ← rejectBrowserControlWatermark browserReading now f p counters whole
      return (settled, true)
    else do
      let settled ← settleBrowserSource browserReading now
        ((f.charge p 0 0 delta).putSource mark.source
          { s with allocated := mark.allocatedThrough }) mark.source
      return (settled, false)

def applyControlWatermark (p : Nat) (a : Attempt α β) (mark : DeliveryWatermark) :
    Except Fault (Attempt α β × Bool) :=
  match mark.family with
  | .browser => do
    let applied ← applyBrowserControlWatermark browserReading a.now a.browser p mark
    return ({ a with browser := applied.1 }, applied.2)
  | .native => do
    let applied ← applyNativeControlWatermark a.native p mark
    return ({ a with native := applied.1 }, applied.2)

/-- Exhausted metadata stops both families; the control is still stored. -/
def reserveNativeResetRecords (a : Attempt α β) (resetBytes : Nat) : Except Fault (Attempt α β) :=
  if resetBytes > 0 then
    match reserveDeliveryMetadata a.metadata resetBytes with
    | .error .metadataCapacity => latchDeliveryMetadata browserReading a
    | .error fault => .error fault
    | .ok next => .ok { a with metadata := next }
  else .ok a

def applySecurityControlWatermarks (p : Nat) :
    List DeliveryWatermark → Attempt α β → Except Fault (Attempt α β)
  | [], a => .ok a
  | mark :: rest, a => do
    let applied ← applyControlWatermark browserReading p a mark
    applySecurityControlWatermarks p rest applied.1

def applySecurityControl (a : Attempt α β) (control : SecurityControl) :
    Except Fault (Attempt α β) :=
  if control.processed then .ok a
  else do
    let reserved ← reserveNativeResetRecords browserReading a control.resetBytes
    let applied ← applySecurityControlWatermarks browserReading control.participation
      control.watermarks reserved
    let native ← storeSecurityControl applied.native control.participation
    return { applied with native := native }

def Attempt.renewLease (a : Attempt α β) (p : Nat) (lease : Option Instant) : Attempt α β :=
  match lease with
  | none => a
  | some lease =>
    { a with participations := a.participations.modify p fun part => { part with lease := lease } }

/-- A control runs only while its Participation is active within its lease. -/
def changeParticipationControl (a : Attempt α β) (control : SecurityControl) :
    Except Fault (Attempt α β) := do
  let part ← a.participation control.participation
  require (control.guarded && !part.isOver a.now) .forbidden
  require (control.watermarks.map fun mark => (mark.family, mark.source)).Nodup .invalidInput
  control.watermarks.forM (checkControlWatermark a control.participation)
  let applied ← applySecurityControl browserReading a control
  return applied.renewLease control.participation control.lease

end Control

/-! ## Lifecycle -/

inductive SourceTransition where
  | initial
  | runtimeReset (prior : Nat)
  | policyCorrection
deriving DecidableEq, Repr

/-- `guarded` stands for the live guard, the start gate and the history of starts,
and `exhausted` tells whether the starts of this kind are used up. -/
structure BrowserSourceStart where
  participation : Nat
  guarded : Bool
  exhausted : Bool
  transition : SourceTransition

section Lifecycle

variable {α β : Type} (browserReading : Reading α) (nativeReading : Reading β)

def closePredecessor (a : Attempt α β) (p : Nat) : SourceTransition → Except Fault (FamilyState α)
  | .runtimeReset prior => do
    let s ← a.browser.source prior
    require (s.participation = p && !s.isClosed) .invalidInput
    closeBrowserSource browserReading a.now a.participations a.browser prior .runtimeReset a.now
  | _ => .ok a.browser

/-- Only a runtime reset records its refusal, on the predecessor it closes. -/
def refuseBrowserSourceStart (a : Attempt α β) (input : BrowserSourceStart) (fault : Fault) :
    Except Fault (Attempt α β × Outcome) :=
  match input.transition with
  | .runtimeReset _ => do
    let browser ← closePredecessor browserReading a input.participation input.transition
    if fault = .metadataCapacity then do
      let latched ← latchDeliveryMetadata browserReading { a with browser := browser }
      return (latched, .capacity)
    else return ({ a with browser := browser }, .refused .sourceBudgetExhausted)
  | _ => .error fault

def insertBrowserSource (a : Attempt α β) (input : BrowserSourceStart) (reserved : Int) :
    Except Fault (Attempt α β × Outcome) := do
  let browser ← closePredecessor browserReading a input.participation input.transition
  let started := { browser with
    sources := browser.sources ++ [.start input.participation a.now] }
  let settled ← settleBrowserSource browserReading a.now started browser.sources.length
  return ({ a with browser := settled, metadata := reserved }, .accepted)

def startBrowserActivity (a : Attempt α β) (input : BrowserSourceStart) :
    Except Fault (Attempt α β × Outcome) := do
  let part ← a.participation input.participation
  require (input.guarded && !part.isOver a.now) .forbidden
  match reserveDeliveryMetadata a.metadata browserOwnerReservationBytes with
  | .error .metadataCapacity => refuseBrowserSourceStart browserReading a input .metadataCapacity
  | .error fault => .error fault
  | .ok reserved =>
    if input.exhausted then
      refuseBrowserSourceStart browserReading a input (.conflict .browserSourceLimit)
    else insertBrowserSource browserReading a input reserved

/-- Admission opens a Participation with its Native stream and its counters. -/
def connect (a : Attempt α β) (lease : Instant) : Except Fault (Attempt α β) := do
  require (a.now < lease) .invalidInput
  let reserved ← reserveDeliveryMetadata a.metadata nativeOwnerReservationBytes
  return { a with
    participations := a.participations ++ [⟨lease, none, .participationEnded⟩]
    browser := { a.browser with participations := a.browser.participations ++ [.zero] }
    native := { a.native with
      participations := a.native.participations ++ [.zero]
      sources := a.native.sources ++ [.start a.participations.length a.now] }
    metadata := reserved }

def endParticipation (a : Attempt α β) (p : Nat) (reason : DeliveryCloseReason)
    (instant : Instant) : Except Fault (Attempt α β) := do
  let part ← a.participation p
  require part.endedAt.isNone .invalidInput
  let ended := { part with endedAt := some instant, endReason := reason }
  closeNativeDelivery browserReading { a with participations := a.participations.set p ended } p
    reason instant

def refreshNativeDelivery (a : Attempt α β) (p : Nat) (guarded : Bool) :
    Except Fault (Attempt α β) := do
  let locked ← lockNativeDelivery browserReading a p guarded
  let native ← advanceNativeInterpretation nativeReading locked.native p
  return { locked with native := native }

def updateNativeDeliverySummary (a : Attempt α β) (p : Nat) (guarded : Bool) :
    Except Fault (Attempt α β) := do
  let locked ← lockNativeDelivery browserReading a p guarded
  let s ← locked.native.source p
  require (!s.closure.isExpired locked.now) .deliveryExpired
  let native ← advanceNativeInterpretation nativeReading locked.native p
  return { locked with native := native }

/-- A changed summary is stored at most every five seconds, the first one after the final
boundary apart. -/
def storeBrowserSummary (now : Instant) (s : DeliverySource α) (closure : DeliveryClosure)
    (summary : UnretainedDeliverySummary) : Except Fault (DeliverySource α) := do
  let final := closure.finalSequence.isSome && !s.summaryFinal
  require (!(s.summaryReceivedAt.any fun received => now - received < 5000) || final)
    (.conflict .summaryRateLimited)
  return { s with
    summary := some summary
    summaryReceivedAt := some now
    summaryFinal := s.summaryFinal || final }

def summaryReplay (s : DeliverySource α) (summary : UnretainedDeliverySummary) :
    Except Fault Bool :=
  match s.summary with
  | none => .ok false
  | some prior => prior.compare summary

def updateBrowserDeliverySummary (a : Attempt α β) (j : Nat) (guarded : Bool)
    (summary : UnretainedDeliverySummary) : Except Fault (Attempt α β) := do
  require summary.validate .invalidInput
  let locked ← lockBrowserDelivery browserReading a.now a.participations a.browser j guarded
  let s ← locked.source j
  let counters ← locked.counters s.participation
  let state ← browserSourceState a.now (locked.summaryOnly counters) s
  require (!state.2.closure.isExpired a.now) .deliveryExpired
  let replayed ← summaryReplay s summary
  if replayed then return { a with browser := locked }
  else do
    let stored ← storeBrowserSummary a.now s state.2.closure summary
    let settled ← settleBrowserSource browserReading a.now (locked.putSource j stored) j
    return { a with browser := settled }

def stopDeliveryDetails (a : Attempt α β) (p : Nat) (guarded : Bool) (family : DeliveryFamily)
    (reason : DeliveryStopReason) : Except Fault (Attempt α β) := do
  let _ ← a.participation p
  require guarded .forbidden
  match family with
  | .native =>
    refreshNativeDelivery browserReading nativeReading
      { a with native := latchNativeDelivery a.native p reason false } p guarded
  | .browser => do
    let latched ← latchBrowserDelivery browserReading a.now a.browser p reason false
    let ids := latched.indices fun s => s.participation = p
    require (ids.length ≤ 49) .invalidPersistedState
    let settled ← settleBrowserSources browserReading a.now latched ids
    return { a with browser := settled }

def expireBrowserDelivery (a : Attempt α β) (j : Nat) : Except Fault (Attempt α β) := do
  let s ← a.browser.source j
  if !s.uploadExpired && s.closure.isExpired a.now then do
    let settled ← settleBrowserSource browserReading a.now a.browser j
    let expired ← settled.source j
    return { a with browser := settled.putSource j { expired with uploadExpired := true } }
  else return a

def expireNativeStream (a : Attempt α β) (p : Nat) : Except Fault (Attempt α β) := do
  let s ← a.native.source p
  if !s.uploadExpired && s.closure.isExpired a.now then do
    require (s.closure.validate true && s.isClosed) .invalidPersistedState
    let closure ← persisted (s.closure.expire true a.now)
    let native ← advanceNativeInterpretation nativeReading
      (a.native.putSource p { s with
        closure := closure
        terminal := s.allocated
        uploadExpired := true }) p
    return { a with native := native }
  else return a

end Lifecycle

/-! ## The machine -/

inductive DeliveryOp (α β : Type) where
  | tick (elapsed : Nat)
  | connect (lease : Instant)
  | startBrowser (input : BrowserSourceStart)
  | lockBrowser (source : Nat) (guarded : Bool)
  | appendBrowser (input : BrowserAppend α)
  | declareBrowser (request : DeclarationRequest)
  | summariseBrowser (source : Nat) (guarded : Bool) (summary : UnretainedDeliverySummary)
  | lockNative (stream : Nat) (guarded : Bool)
  | appendNative (input : NativeAppend β)
  | declareNative (request : DeclarationRequest)
  | summariseNative (stream : Nat) (guarded : Bool)
  | control (input : SecurityControl)
  | stopDetails (participation : Nat) (guarded : Bool) (family : DeliveryFamily)
      (reason : DeliveryStopReason)
  | expireBrowser (source : Nat)
  | expireNative (stream : Nat)
  | endParticipation (participation : Nat) (reason : DeliveryCloseReason) (instant : Instant)
  | closeSitting (enabled : Bool)
  | settleSubmission (reason : DeliveryCloseReason)

section Machine

variable {α β : Type} (browserReading : Reading α) (nativeReading : Reading β)

def accepted (result : Except Fault (Attempt α β)) : Except Fault (Attempt α β × Outcome) := do
  let a ← result
  return (a, .accepted)

def acceptedBrowser (a : Attempt α β) (result : Except Fault (FamilyState α)) :
    Except Fault (Attempt α β × Outcome) := do
  let browser ← result
  return ({ a with browser := browser }, .accepted)

def DeliveryOp.execute (a : Attempt α β) : DeliveryOp α β → Except Fault (Attempt α β × Outcome)
  | .tick elapsed => .ok ({ a with now := a.now + elapsed }, .accepted)
  | .connect lease => accepted (Delivery.connect a lease)
  | .startBrowser input => startBrowserActivity browserReading a input
  | .lockBrowser j guarded =>
    acceptedBrowser a (lockBrowserDelivery browserReading a.now a.participations a.browser j guarded)
  | .appendBrowser input => do
    let answer ← performBrowserAppend browserReading a.now a.participations a.browser input
    return ({ a with browser := answer.1 }, answer.2)
  | .declareBrowser request => executeBrowserDeclaration browserReading a request
  | .summariseBrowser j guarded summary =>
    accepted (updateBrowserDeliverySummary browserReading a j guarded summary)
  | .lockNative p guarded => accepted (lockNativeDelivery browserReading a p guarded)
  | .appendNative input => executeNativeAppend browserReading nativeReading a input
  | .declareNative request => executeNativeDeclaration browserReading nativeReading a request
  | .summariseNative p guarded =>
    accepted (updateNativeDeliverySummary browserReading nativeReading a p guarded)
  | .control input => accepted (changeParticipationControl browserReading a input)
  | .stopDetails p guarded family reason =>
    accepted (stopDeliveryDetails browserReading nativeReading a p guarded family reason)
  | .expireBrowser j => accepted (expireBrowserDelivery browserReading a j)
  | .expireNative p => accepted (expireNativeStream nativeReading a p)
  | .endParticipation p reason instant =>
    accepted (Delivery.endParticipation browserReading a p reason instant)
  | .closeSitting enabled =>
    acceptedBrowser a (closeSittingBrowserSources browserReading a.now a.participations a.browser
      enabled)
  | .settleSubmission reason =>
    acceptedBrowser a (settleSubmissionBrowserSources browserReading a.now a.participations
      a.browser reason)

/-- The state after an operation; a transaction that fails changes nothing. -/
def DeliveryOp.step (a : Attempt α β) (op : DeliveryOp α β) : Attempt α β :=
  match op.execute browserReading nativeReading a with
  | .ok answer => answer.1
  | .error _ => a

def run (a : Attempt α β) (ops : List (DeliveryOp α β)) : Attempt α β :=
  ops.foldl (DeliveryOp.step browserReading nativeReading) a

end Machine

end Proctor.Delivery
