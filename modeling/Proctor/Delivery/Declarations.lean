import Proctor.Delivery.Native

/-!
# Gap and final declarations

Both families place, charge and store a declaration in the same order. A Browser
declaration settles its source once everything is written; a Native one
interprets its stream between the insertion and the update of the owner, within
the same transaction.
-/

namespace Proctor.Delivery

open Ranges ExamPolicy

structure DeclarationRequest where
  source : Nat
  guarded : Bool
  digest : Text
  declaration : Declaration
  recordBytes : Nat

section Place

variable {α : Type}

def declarationReplay (s : DeliverySource α) (allocated : Int) (request : DeclarationRequest) :
    Except Fault Bool :=
  match s.declarations.find? fun record => record.declaration.id = request.declaration.id with
  | none => .ok false
  | some record => do
    require (!(record.settledThrough > allocated)) .invalidPersistedState
    require (record.digest = request.digest) (.conflict .declarationConflict)
    require (record.declaration.isGaps == request.declaration.isGaps)
      (.conflict .declarationConflict)
    return true

def placeDeclaration (native : Bool) (now : Instant) (progress : DeliveryProgress)
    (allocated revision : Int) (closure : DeliveryClosure) (summaryOnly : Bool)
    (received gaps : List SequenceRange) : Declaration → Except Fault (DeliveryClosure × Int)
  | .gaps request => do
    validateDeliveryGapPlacement native progress allocated revision closure summaryOnly request
      received gaps now
    return (closure, max allocated request.allocatedThroughSequence)
  | .final request => do
    let declared ← closure.declareFinal native revision allocated summaryOnly request now
    return (declared.1, allocated + declared.2)

def prospectiveGaps (gaps : List SequenceRange) : Declaration → List SequenceRange
  | .gaps request => mergeNativeDeliveryRanges (gaps ++ request.ranges)
  | .final _ => gaps

/-- Only gap records are counted metadata; a final one has its slot reserved. -/
def reserveDeclaration (metadata : Int) (request : DeclarationRequest) : Except Fault Int :=
  if request.declaration.isGaps then reserveDeliveryMetadata metadata request.recordBytes
  else .ok metadata

def exceedsIntervals (intervals : Int) (request : DeclarationRequest) : Bool :=
  request.declaration.isGaps &&
    request.declaration.ranges.length > deliveryMissingIntervalLimit - intervals

def DeliverySource.declare (s : DeliverySource α) (request : DeclarationRequest)
    (closure : DeliveryClosure) (allocated settledThrough : Int) : DeliverySource α :=
  { s with
    allocated := allocated
    revision := s.revision + 1
    closure := closure
    declarations := s.declarations ++
      [⟨request.digest, request.declaration, s.revision + 1, settledThrough⟩] }

end Place

section Browser

variable {α β : Type} (browserReading : Reading α)

def storeBrowserDeclaration (a : Attempt α β) (request : DeclarationRequest)
    (s : DeliverySource α) (status : BrowserSourceStatus)
    (ranges : List SequenceRange × List SequenceRange) (placed : DeliveryClosure × Int) :
    Except Fault (Attempt α β × Outcome) := do
  let prospective ← resolveDeliveryProgress placed.2 ranges.1
    (prospectiveGaps ranges.2 request.declaration) status.terminal
  match reserveDeclaration a.metadata request with
  | .error .metadataCapacity => do
    let latched ← latchDeliveryMetadata browserReading a
    return (latched, .capacity)
  | .error fault => .error fault
  | .ok metadata => do
    let delta := placed.2 - status.allocated
    let settled ← settleBrowserSource browserReading a.now
      ((a.browser.charge s.participation 0 0 delta).putSource request.source
        (s.declare request placed.1 placed.2 prospective.settledThrough)) request.source
    return ({ a with
      browser := settled
      metadata := metadata
      intervals := a.intervals + request.declaration.ranges.length }, .accepted)

def declareBrowserPositions (a : Attempt α β) (request : DeclarationRequest)
    (s : DeliverySource α) (status : BrowserSourceStatus) :
    Except Fault (Attempt α β × Outcome) := do
  let ranges ← browserDeliveryRanges s
  let progress ← resolveDeliveryProgress status.allocated ranges.1 ranges.2 status.terminal
  let counters ← a.browser.counters s.participation
  let placed ← placeDeclaration false a.now progress status.allocated s.revision status.closure
    (a.browser.summaryOnly counters) ranges.1 ranges.2 request.declaration
  let delta := placed.2 - status.allocated
  let whole := decide (delta > positionLimitOf false true - a.browser.attempt.positions)
  if delta > positionLimitOf false false - counters.positions || whole then do
    let latched ← latchBrowserDelivery browserReading a.now a.browser s.participation .positions
      whole
    return ({ a with browser := latched }, .refused .sequenceLimit)
  else if exceedsIntervals a.intervals request then do
    let latched ← latchDeliveryMetadata browserReading a
    return (latched, .refused .detailBudgetExhausted)
  else storeBrowserDeclaration browserReading a request s status ranges placed

def executeBrowserDeclaration (a : Attempt α β) (request : DeclarationRequest) :
    Except Fault (Attempt α β × Outcome) := do
  require request.declaration.validate .invalidInput
  let browser ← lockBrowserDelivery browserReading a.now a.participations a.browser request.source
    request.guarded
  let s ← browser.source request.source
  let counters ← browser.counters s.participation
  let state ← browserSourceState a.now (browser.summaryOnly counters) s
  require (!state.2.closure.isExpired a.now) .deliveryExpired
  let replayed ← declarationReplay s state.2.allocated request
  if replayed then return ({ a with browser := browser }, .accepted)
  else declareBrowserPositions browserReading { a with browser := browser } request s state.2

end Browser

section Native

variable {α β : Type} (browserReading : Reading α) (nativeReading : Reading β)

def storeNativeDeclaration (a : Attempt α β) (request : DeclarationRequest)
    (s : DeliverySource β) (placed : DeliveryClosure × Int) :
    Except Fault (Attempt α β × Outcome) := do
  let prospective ← resolveDeliveryProgress placed.2 s.received
    (prospectiveGaps s.gaps request.declaration) s.terminal
  match reserveDeclaration a.metadata request with
  | .error .metadataCapacity => do
    let latched ← latchDeliveryMetadata browserReading a
    return (latched, .capacity)
  | .error fault => .error fault
  | .ok metadata => do
    let delta := placed.2 - s.allocated
    let native ← advanceNativeInterpretation nativeReading
      ((a.native.chargeStream request.source 0 0 delta).putSource request.source
        (s.declare request placed.1 placed.2 prospective.settledThrough)) request.source
    return ({ a with
      native := native
      metadata := metadata
      intervals := a.intervals + request.declaration.ranges.length }, .accepted)

def declareNativePositions (a : Attempt α β) (request : DeclarationRequest)
    (s : DeliverySource β) : Except Fault (Attempt α β × Outcome) := do
  let progress ← persisted s.progress
  let counters ← a.native.counters request.source
  let placed ← placeDeclaration true a.now progress s.allocated s.revision s.closure
    (a.native.summaryOnly counters) s.received s.gaps request.declaration
  let delta := placed.2 - s.allocated
  let whole := decide (delta > positionLimitOf true true - a.native.attempt.positions)
  if delta > positionLimitOf true false - s.allocated || whole then
    return ({ a with native := latchNativeDelivery a.native request.source .positions whole },
      .refused .sequenceLimit)
  else if exceedsIntervals a.intervals request then do
    let latched ← latchDeliveryMetadata browserReading a
    return (latched, .refused .detailBudgetExhausted)
  else storeNativeDeclaration browserReading nativeReading a request s placed

def executeNativeDeclaration (a : Attempt α β) (request : DeclarationRequest) :
    Except Fault (Attempt α β × Outcome) := do
  require request.declaration.validate .invalidInput
  let a ← lockNativeDelivery browserReading a request.source request.guarded
  let s ← a.native.source request.source
  require (!s.closure.isExpired a.now) .deliveryExpired
  let replayed ← declarationReplay s s.allocated request
  if replayed then do
    let native ← advanceNativeInterpretation nativeReading a.native request.source
    return ({ a with native := native }, .accepted)
  else declareNativePositions browserReading nativeReading a request s

end Native

end Proctor.Delivery
