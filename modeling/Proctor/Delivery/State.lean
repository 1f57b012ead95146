import Proctor.Delivery.Budget
import Proctor.Delivery.Integrity
import Proctor.Fallible.Basic
import Proctor.Ledger.Book

/-!
# The delivery state of one Attempt

Browser sources and Native streams keep the same columns, so one record stands
for a row of either table together with its stored rows and declarations. The
two families differ in their limits, their receive window and the operations of
the next modules. What a stored record says is left to a reading: the checks on
its content at admission, and its interpretation once its position is settled.
-/

namespace Proctor.Delivery

open Ranges ExamPolicy

def require (condition : Bool) (fault : Fault) : Except Fault Unit :=
  if condition then .ok () else .error fault

def found {α : Type} (value : Option α) : Except Fault α :=
  match value with
  | some a => .ok a
  | none => .error .notFound

def persisted {α : Type} (value : Except Fault α) : Except Fault α :=
  match value with
  | .ok a => .ok a
  | .error _ => .error .invalidPersistedState

theorem require_ok_iff {condition : Bool} {fault : Fault} {u : Unit} :
    require condition fault = .ok u ↔ condition := by
  cases condition <;> simp [require]

theorem found_ok_iff {α : Type} {value : Option α} {a : α} : found value = .ok a ↔ value = some a := by
  cases value <;> simp [found]

theorem persisted_ok_iff {α : Type} {value : Except Fault α} {a : α} :
    persisted value = .ok a ↔ value = .ok a := by
  cases value <;> simp [persisted]

/-- A stored Browser event or Native batch with its counted sizes. -/
structure Row (α : Type) extends Ledger.Entry where
  digest : Text
  payload : α

inductive Declaration where
  | gaps (declaration : DeclareDeliveryGaps)
  | final (declaration : FinalDeliveryDeclaration)
deriving DecidableEq, Repr

def Declaration.ranges : Declaration → List SequenceRange
  | .gaps declaration => declaration.ranges
  | .final _ => []

def Declaration.id : Declaration → Text
  | .gaps declaration => declaration.declarationID
  | .final declaration => declaration.declarationID

def Declaration.isGaps : Declaration → Bool
  | .gaps _ => true
  | .final _ => false

def Declaration.validate : Declaration → Bool
  | .gaps declaration => declaration.validate
  | .final declaration => declaration.validate

structure DeclarationRecord where
  digest : Text
  declaration : Declaration
  revision : Int
  settledThrough : Int
deriving DecidableEq, Repr

/-- A row of `browser_activity_sources`, or the delivery columns of a row of
`exam_attempt_security_owners`. A Native stream has no highest seen column, no end
column of its own and no part in the settlement of a Submission, and keeps the
initial values there. -/
structure DeliverySource (α : Type) where
  participation : Nat
  startedAt : Instant
  endedAt : Option Instant
  allocated : Int
  seen : Int
  contiguous : Int
  settled : Int
  terminal : Int
  revision : Int
  closure : DeliveryClosure
  uploadExpired : Bool
  summary : Option UnretainedDeliverySummary
  summaryReceivedAt : Option Instant
  summaryFinal : Bool
  settlementPending : Bool
  settlementIncomplete : Bool
  rows : List (Row α)
  declarations : List DeclarationRecord

def DeliverySource.start {α : Type} (participation : Nat) (startedAt : Instant) :
    DeliverySource α :=
  ⟨participation, startedAt, none, 0, 0, 0, 0, 0, 0, .opened, false, none, none, false, false, false,
    [], []⟩

/-- The counters of one family in one scope. The position counter of a Native
Participation is the allocated column of its only stream, and this one stays zero. -/
structure ScopeCounters where
  records : Int
  bytes : Int
  positions : Int
  summaryOnly : Bool
  stopReason : Option DeliveryStopReason
deriving DecidableEq, Repr

def ScopeCounters.zero : ScopeCounters :=
  ⟨0, 0, 0, false, none⟩

def ScopeCounters.usage (c : ScopeCounters) (native attempt : Bool) : DeliveryQuotaUsage :=
  { newDeliveryQuotaUsage native attempt with
    retainedRecords := c.records
    retainedBytes := c.bytes
    allocatedPositions := c.positions
    summaryOnly := c.summaryOnly
    stopReason := c.stopReason }

def ScopeCounters.stop (reason : DeliveryStopReason) (c : ScopeCounters) : ScopeCounters :=
  { c with summaryOnly := true, stopReason := c.stopReason.or (some reason) }

def ScopeCounters.charge (records bytes positions : Int) (c : ScopeCounters) : ScopeCounters :=
  { c with
    records := c.records + records
    bytes := c.bytes + bytes
    positions := c.positions + positions }

inductive SettlementState where
  | notApplicable
  | settled
  | pending
  | incomplete
deriving DecidableEq, Repr

/-- The columns of the Submission settlement, the revision of the inventory apart. -/
structure BrowserSubmissionSettlement where
  state : SettlementState
  sourceCount : Nat
  pendingSourceCount : Nat
  incompleteSourceCount : Nat
deriving DecidableEq, Repr

def BrowserSubmissionSettlement.expectedState (sources pending incomplete : Nat) : SettlementState :=
  if sources = 0 then .notApplicable
  else if pending > 0 then .pending
  else if incomplete > 0 then .incomplete
  else .settled

def BrowserSubmissionSettlement.of {α : Type} (sources : List (DeliverySource α)) :
    BrowserSubmissionSettlement :=
  let pending := sources.countP fun s => s.settlementPending
  let incomplete := sources.countP fun s => s.settlementIncomplete
  ⟨expectedState sources.length pending incomplete, sources.length, pending, incomplete⟩

structure FamilyState (α : Type) where
  sources : List (DeliverySource α)
  participations : List ScopeCounters
  attempt : ScopeCounters
  pending : Int
  retired : Bool
  settlement : BrowserSubmissionSettlement
  integrity : IntegrityLedger

def FamilyState.empty {α : Type} : FamilyState α :=
  ⟨[], [], .zero, 0, false, ⟨.notApplicable, 0, 0, 0⟩, .empty⟩

structure Participation where
  lease : Instant
  endedAt : Option Instant
  endReason : DeliveryCloseReason
deriving DecidableEq, Repr

def Participation.isOver (p : Participation) (now : Instant) : Bool :=
  p.endedAt.isSome || !(now < p.lease)

def Participation.overdueClose (p : Participation) : Instant × DeliveryCloseReason :=
  match p.endedAt with
  | some ended => if ended < p.lease then (ended, p.endReason) else (p.lease, .participationEnded)
  | none => (p.lease, .participationEnded)

structure Attempt (α β : Type) where
  now : Instant
  participations : List Participation
  browser : FamilyState α
  native : FamilyState β
  metadata : Int
  intervals : Int

def Attempt.initial {α β : Type} (now : Instant) : Attempt α β :=
  ⟨now, [], .empty, .empty, 0, 0⟩

/-- The meaning of stored content: the check of a record against the rows at its
admission, the check of its neighbours once stored, and its interpretation
against the rows so far, told whether a position before it is missing; of what is
interpreted, whether its provenance is unresolved, and the integrity evidence it
gives. -/
structure Reading (α : Type) where
  admission : List (Row α) → Row α → Except Fault Unit
  accept : List (Row α) → Int → Row α → Except Fault Unit
  interpret : List (Row α) → Bool → Row α → Except Fault α
  unresolved : α → Bool
  evidence : α → Option IntegrityDetail

/-! ## Positions of a source -/

section Source

variable {α : Type}

def insertRow (row : Row α) : List (Row α) → List (Row α)
  | [] => [row]
  | head :: rest =>
    if row.sequence ≤ head.sequence then row :: head :: rest else head :: insertRow row rest

def DeliverySource.received (s : DeliverySource α) : List SequenceRange :=
  coalesce (s.rows.map fun row => ⟨row.sequence, row.sequence⟩)

def DeliverySource.declaredRanges (s : DeliverySource α) : List SequenceRange :=
  s.declarations.flatMap fun record => record.declaration.ranges

def mergeNativeDeliveryRanges (ranges : List SequenceRange) : List SequenceRange :=
  coalesce (sortByFirst ranges)

def DeliverySource.gaps (s : DeliverySource α) : List SequenceRange :=
  mergeNativeDeliveryRanges s.declaredRanges

def DeliverySource.progress (s : DeliverySource α) : Except Fault DeliveryProgress :=
  resolveDeliveryProgress s.allocated s.received s.gaps s.terminal

def DeliverySource.isClosed (s : DeliverySource α) : Bool :=
  s.closure.closedAt.isSome

def advanceRows (reading : Reading α) (through : Int) (missingBefore : Int → Bool) :
    List (Row α) → List (Row α) → Except Fault (List (Row α))
  | before, [] => .ok before
  | before, row :: rest =>
    if !row.interpreted && row.sequence ≤ through then do
      let payload ← reading.interpret (before ++ row :: rest) (missingBefore row.sequence) row
      advanceRows reading through missingBefore
        (before ++ [{ row with interpreted := true, payload := payload }]) rest
    else advanceRows reading through missingBefore (before ++ [row]) rest

def interpretedRows (through : Int) (before after : List (Row α)) : List (Row α) :=
  (before.zip after).filterMap fun pair =>
    if !pair.1.interpreted && pair.1.sequence ≤ through then some pair.2 else none

/-- The evidence asked for by a row that was interpreted; one whose provenance is
unresolved gives none. -/
def Row.qualifying (reading : Reading α) (source participation : Nat) (row : Row α) :
    Option QualifyingEvent :=
  if reading.unresolved row.payload then none
  else (reading.evidence row.payload).map fun detail =>
    ⟨source, row.sequence, ⟨participation, detail.policyRevisionID, detail.ruleID⟩, detail.encoded⟩

def releasedBytes (through : Int) (rows : List (Row α)) : Int :=
  Ledger.releasedBy through (rows.map Row.toEntry)

end Source

/-! ## Updates -/

section Updates

variable {α β : Type}

def FamilyState.source (f : FamilyState α) (j : Nat) : Except Fault (DeliverySource α) :=
  found f.sources[j]?

def FamilyState.putSource (f : FamilyState α) (j : Nat) (s : DeliverySource α) : FamilyState α :=
  { f with sources := f.sources.set j s }

def FamilyState.counters (f : FamilyState α) (p : Nat) : Except Fault ScopeCounters :=
  found f.participations[p]?

def FamilyState.summaryOnly (f : FamilyState α) (c : ScopeCounters) : Bool :=
  c.summaryOnly || f.attempt.summaryOnly

def FamilyState.charge (f : FamilyState α) (p : Nat) (records bytes positions : Int) :
    FamilyState α :=
  { f with
    participations := f.participations.modify p (ScopeCounters.charge records bytes positions)
    attempt := f.attempt.charge records bytes positions }

def FamilyState.stopParticipation (f : FamilyState α) (p : Nat) (reason : DeliveryStopReason) :
    FamilyState α :=
  { f with participations := f.participations.modify p (ScopeCounters.stop reason) }

def FamilyState.stopAttempt (f : FamilyState α) (reason : DeliveryStopReason) : FamilyState α :=
  { f with attempt := f.attempt.stop reason }

def FamilyState.terminate (f : FamilyState α) (chosen : DeliverySource α → Bool) : FamilyState α :=
  { f with sources := f.sources.map fun s =>
      if chosen s then { s with terminal := s.allocated } else s }

def Attempt.participation (a : Attempt α β) (p : Nat) : Except Fault Participation :=
  found a.participations[p]?

end Updates

end Proctor.Delivery
