import Proctor.Delivery.Lifecycle

/-!
# Browser integrity evidence

Verified events whose rule asks for evidence are copied into groups, one for each
Participation, policy revision and rule. An event that no longer fits is counted:
in its group, or in the Attempt when not even its group fits.
-/

namespace Proctor.Delivery

open ExamPolicy

def browserFlagGroupLimit : Nat := 256
def browserGroupDetailLimit : Nat := 100
def browserEvidenceRecordLimit : Nat := 10000
def browserEvidenceByteLimit : Nat := 8 * 1024 * 1024

/-- The rule that asks for evidence, and the size of the encoded copy unless the copy is
invalid or larger than a copy may be. -/
structure IntegrityDetail where
  policyRevisionID : Text
  ruleID : Text
  encoded : Option Nat
deriving DecidableEq, Repr

structure IntegrityKey where
  participation : Nat
  policyRevisionID : Text
  ruleID : Text
deriving DecidableEq, Repr

/-- A row of `browser_integrity_groups`. -/
structure IntegrityGroup where
  key : IntegrityKey
  retainedDetails : Nat
  overflowCount : Nat
deriving DecidableEq, Repr

/-- A verified event whose rule asks for evidence, at its position of a source. -/
structure QualifyingEvent where
  source : Nat
  sequence : Int
  key : IntegrityKey
  encoded : Option Nat
deriving DecidableEq, Repr

/-- A row of `integrity_evidence`. -/
structure IntegrityCopy where
  source : Nat
  sequence : Int
  key : IntegrityKey
  bytes : Nat
deriving DecidableEq, Repr

structure IntegrityLedger where
  retired : Bool
  groups : List IntegrityGroup
  copies : List IntegrityCopy
  flagGroups : Nat
  evidenceRecords : Nat
  evidenceBytes : Nat
  overflowCount : Nat
deriving DecidableEq, Repr

def IntegrityLedger.empty : IntegrityLedger :=
  ⟨false, [], [], 0, 0, 0, 0⟩

def IntegrityLedger.group (l : IntegrityLedger) (key : IntegrityKey) : Option IntegrityGroup :=
  l.groups.find? fun g => g.key = key

def IntegrityLedger.updateGroup (l : IntegrityLedger) (key : IntegrityKey)
    (update : IntegrityGroup → IntegrityGroup) : List IntegrityGroup :=
  l.groups.map fun g => if g.key = key then update g else g

def IntegrityLedger.keepCopy (l : IntegrityLedger) (copy : IntegrityCopy) : IntegrityLedger :=
  { l with
    groups := l.updateGroup copy.key fun g => { g with retainedDetails := g.retainedDetails + 1 }
    copies := l.copies ++ [copy]
    evidenceRecords := l.evidenceRecords + 1
    evidenceBytes := l.evidenceBytes + copy.bytes }

def IntegrityLedger.countInGroup (l : IntegrityLedger) (key : IntegrityKey) : IntegrityLedger :=
  { l with groups := l.updateGroup key fun g => { g with overflowCount := g.overflowCount + 1 } }

def IntegrityLedger.countInAttempt (l : IntegrityLedger) : IntegrityLedger :=
  { l with overflowCount := l.overflowCount + 1 }

def IntegrityLedger.openGroup (l : IntegrityLedger) (key : IntegrityKey) : IntegrityLedger :=
  { l with groups := l.groups ++ [⟨key, 0, 0⟩], flagGroups := l.flagGroups + 1 }

def IntegrityLedger.retainInGroup (l : IntegrityLedger) (details : Nat) (event : QualifyingEvent) :
    Except Fault IntegrityLedger :=
  match event.encoded with
  | none => .error .deliveryInvalid
  | some bytes =>
    if details < browserGroupDetailLimit && l.evidenceRecords < browserEvidenceRecordLimit &&
        l.evidenceBytes + bytes ≤ browserEvidenceByteLimit then
      .ok (l.keepCopy ⟨event.source, event.sequence, event.key, bytes⟩)
    else .ok (l.countInGroup event.key)

def IntegrityLedger.retainBrowserIntegrity (l : IntegrityLedger) (event : QualifyingEvent) :
    Except Fault IntegrityLedger :=
  if l.retired then .ok l
  else match l.group event.key with
    | some g => l.retainInGroup g.retainedDetails event
    | none =>
      if l.flagGroups ≥ browserFlagGroupLimit then .ok l.countInAttempt
      else (l.openGroup event.key).retainInGroup 0 event

end Proctor.Delivery
