import Proctor.Fallible.Basic
import Proctor.Keyed.Table

/-! # Class enrollments and Affiliations

Model of the writers of `class_members` and `affiliations`: `Enroll` and `End` of
`class_member_store.go`, `Create` and `End` of `affiliation_store.go` and what the acceptance of a
student invitation does to both tables. Each is one transaction. What the mail, audit, command and
authority checks around it decide is one input, as is the Academic Period of the Class. Times are
microseconds, zero the zero time. -/
namespace Proctor.Academics

open Keyed

abbrev Instant := Nat

inductive Fault where
  | invalidInput (entity field : String)
  | conflict (entity reason : String)
  | notFound (entity : String)
  /-- A check around the two tables. -/
  | refused
  deriving DecidableEq, Repr

/-- `end_at IS NULL OR end_at > t`. -/
def before (t : Instant) (endsAt : Option Instant) : Bool := endsAt.all fun e => t < e

structure Interval where
  startsAt : Instant
  endsAt : Option Instant
  deriving DecidableEq, Repr

def Interval.covers (i : Interval) (t : Instant) : Prop := i.startsAt ≤ t ∧ before t i.endsAt

/-- The conflict queries, whose `start_at < NULL` is guarded by a test for no end. -/
def Interval.overlaps (candidate row : Interval) : Bool :=
  before candidate.startsAt row.endsAt && before row.startsAt candidate.endsAt

def validateEffectiveInterval (i : Interval) : Bool := i.startsAt ≠ 0 && before i.startsAt i.endsAt

structure ClassMember (ι : Type) where
  id : ι
  createdAt : Instant
  updatedAt : Instant
  archivedAt : Option Instant
  revision : Nat
  classID : ι
  academicPeriodID : ι
  userID : ι
  effective : Interval
  deriving DecidableEq, Repr

inductive AffiliationKind where
  | student | teacher | staff | external
  deriving DecidableEq, Repr

structure Affiliation (ι : Type) where
  id : ι
  createdAt : Instant
  updatedAt : Instant
  archivedAt : Option Instant
  revision : Nat
  userID : ι
  kind : AffiliationKind
  effective : Interval
  deriving DecidableEq, Repr

structure Database (ι : Type) where
  members : Table fun m : ClassMember ι => m.id
  affiliations : Table fun a : Affiliation ι => a.id

def Database.empty {ι : Type} : Database ι := ⟨.empty, .empty⟩

section Store

variable {ι : Type} [LinearOrder ι] (isValid : ι → Bool)

def ClassMember.validate (m : ClassMember ι) : Bool :=
  isValid m.id && m.createdAt ≠ 0 && m.updatedAt ≠ 0 && m.createdAt ≤ m.updatedAt && 0 < m.revision &&
    isValid m.classID && isValid m.academicPeriodID && isValid m.userID && validateEffectiveInterval m.effective

def Affiliation.validate (a : Affiliation ι) : Bool :=
  isValid a.id && a.createdAt ≠ 0 && a.updatedAt ≠ 0 && a.createdAt ≤ a.updatedAt && 0 < a.revision &&
    isValid a.userID && validateEffectiveInterval a.effective

/-- `ORDER BY start_at DESC, id LIMIT 1`. -/
def newest {ρ : Type} (effective : ρ → Interval) (id : ρ → ι) (rows : List ρ) : Option ρ :=
  (rows.insertionSort fun a b => (effective b).startsAt < (effective a).startsAt ∨
    (effective a).startsAt = (effective b).startsAt ∧ id a ≤ id b).head?

/-- The `UPDATE` of `end_at`, with the modification time that never moves backwards. -/
def ClassMember.ended (m : ClassMember ι) (endAt updatedAt : Instant) : ClassMember ι :=
  { m with
    updatedAt := max m.updatedAt updatedAt
    effective := ⟨m.effective.startsAt, some endAt⟩
    revision := m.revision + 1 }

def Affiliation.ended (a : Affiliation ι) (endAt : Instant) : Affiliation ι :=
  { a with
    updatedAt := max a.updatedAt endAt
    effective := ⟨a.effective.startsAt, some endAt⟩
    revision := a.revision + 1 }

/-! ## Affiliations -/

def Database.insertAffiliation (db : Database ι) (a : Affiliation ι) : Except Fault (Database ι) :=
  match db.affiliations.insert a with
  | none => .error (.conflict "affiliation" "affiliations_pkey")
  | some affiliations => .ok { db with affiliations }

/-- `ensureAffiliationRangeAvailable`. -/
def Database.affiliationOverlaps (db : Database ι) (candidate : Affiliation ι) : Bool :=
  db.affiliations.rows.any fun a => a.userID = candidate.userID && a.kind = candidate.kind &&
    a.archivedAt.isNone && candidate.effective.overlaps a.effective

def Database.createAffiliation (db : Database ι) (candidate : Affiliation ι) (command : Bool) :
    Except Fault (Database ι) :=
  if !candidate.validate isValid then .error (.invalidInput "affiliation" "value")
  else if command && db.affiliations.rows.any fun a => a.userID = candidate.userID && a.kind = candidate.kind &&
      a.effective = candidate.effective && a.archivedAt.isNone then .ok db
  else if db.affiliationOverlaps candidate then
    .error (.conflict "affiliation" "affiliations_effective_range_overlap")
  else db.insertAffiliation candidate

def Database.hasOpenEnrollment (db : Database ι) (user : ι) : Bool :=
  db.members.rows.any fun m => m.userID = user && m.archivedAt.isNone && m.effective.endsAt.isNone

def Database.endAffiliation (db : Database ι) (id : ι) (expectedRevision : Nat) (endAt : Instant)
    (command : Bool) : Except Fault (Database ι) :=
  if expectedRevision = 0 || endAt = 0 then .error (.invalidInput "affiliation" "end")
  else match (db.affiliations.find id).filter fun a => a.archivedAt.isNone with
    | none => .error (.notFound "affiliation")
    | some current =>
      if current.effective.endsAt.isSome then
        if command then .ok db else .error (.conflict "affiliation" "revision")
      else if current.revision ≠ expectedRevision then .error (.conflict "affiliation" "affiliation_changed")
      else if endAt ≤ current.effective.startsAt then .error (.conflict "affiliation" "affiliation_end_time")
      else if current.kind = .student && db.hasOpenEnrollment current.userID then
        .error (.conflict "affiliation" "affiliation_student_has_active_enrollment")
      else .ok { db with affiliations := db.affiliations.set (current.ended endAt) }

/-! ## Enrollments -/

def Database.insertMember (db : Database ι) (m : ClassMember ι) : Except Fault (Database ι) :=
  match db.members.insert m with
  | none => .error (.conflict "class_member" "class_members_pkey")
  | some members => .ok { db with members }

def ClassMember.concerns (m : ClassMember ι) (candidate : ClassMember ι) : Bool :=
  m.userID = candidate.userID && m.academicPeriodID = candidate.academicPeriodID && m.archivedAt.isNone

/-- The query of `requireClassEnrollmentStudent`. -/
def Database.hasOpenStudent (db : Database ι) (candidate : ClassMember ι) : Bool :=
  db.affiliations.rows.any fun a => a.userID = candidate.userID && a.kind = .student && a.archivedAt.isNone &&
    a.effective.startsAt ≤ candidate.effective.startsAt && a.effective.endsAt.isNone

/-- The query of `findProgressionDestinationEnrollment`. -/
def Database.destination (db : Database ι) (candidate : ClassMember ι) : Option (ClassMember ι) :=
  newest ClassMember.effective ClassMember.id (db.members.rows.filter fun m => m.concerns candidate &&
    m.classID = candidate.classID && m.effective.startsAt ≤ candidate.effective.startsAt &&
    before candidate.effective.startsAt m.effective.endsAt)

/-- The query of `lockCurrentClassEnrollment`. -/
def Database.currentEnrollment (db : Database ι) (candidate : ClassMember ι) : Option (ClassMember ι) :=
  newest ClassMember.effective ClassMember.id
    (db.members.rows.filter fun m => m.concerns candidate && m.effective.endsAt.isNone)

/-- `requireNoClassEnrollmentOverlap`. -/
def Database.enrollmentOverlaps (db : Database ι) (candidate : ClassMember ι) (excluded : Option ι) : Bool :=
  db.members.rows.any fun m => m.concerns candidate && excluded ≠ some m.id &&
    candidate.effective.overlaps m.effective

inductive MailTemplate where
  | classEnrolled | classTransferred
  deriving DecidableEq, Repr

structure Enrollment (ι : Type) where
  member : ClassMember ι
  /-- The Academic Period of the Class, none where the Class is missing or archived. -/
  period : Option ι
  expectedPreviousID : Option ι
  notice : Option MailTemplate
  command : Bool
  studentProgression : Bool
  refused : Bool

/-- `validateClassEnrollmentNotice`; the audit event is always there. -/
def Enrollment.noticeFault (input : Enrollment ι) (previous : Option (ClassMember ι)) : Option Fault :=
  match input.notice with
  | none => some (.invalidInput "class_member" "transition_notice")
  | some key =>
    if previous.map ClassMember.id ≠ input.expectedPreviousID then
      some (.conflict "class_member" "class_member_transition_changed")
    else if key ≠ if previous.isSome then .classTransferred else .classEnrolled then
      some (.invalidInput "class_member" "transition_notice")
    else none

def Database.admitEnrollment (db : Database ι) (input : Enrollment ι) (candidate : ClassMember ι)
    (previous : Option (ClassMember ι)) : Except Fault (Database ι) :=
  match input.noticeFault previous with
  | some fault => .error fault
  | none =>
    if db.enrollmentOverlaps candidate (previous.map ClassMember.id) then
      .error (.conflict "class_member" "class_members_effective_range_overlap")
    else db.insertMember candidate

def Database.enrollInTransaction (db : Database ι) (input : Enrollment ι) (candidate : ClassMember ι) :
    Except Fault (Database ι) :=
  if !candidate.validate isValid then .error (.invalidInput "class_member" "value")
  else if !db.hasOpenStudent candidate then
    .error (.conflict "class_member" "class_member_student_affiliation_required")
  else if input.studentProgression && (db.destination candidate).isSome then .ok db
  else match db.currentEnrollment candidate with
    | none => db.admitEnrollment input candidate none
    | some previous =>
      if previous.classID = candidate.classID then
        if input.command && previous.effective = candidate.effective then .ok db
        else .error (.conflict "class_member" "class_members_one_active_class_per_period_key")
      else if candidate.effective.startsAt ≤ previous.effective.startsAt then
        .error (.conflict "class_member" "class_members_transfer_time")
      else Database.admitEnrollment
        { db with members := db.members.set (previous.ended candidate.effective.startsAt candidate.updatedAt) }
        input candidate (some previous)

def Enrollment.candidate (input : Enrollment ι) : Option (ClassMember ι) :=
  input.period.map fun academicPeriodID => { input.member with academicPeriodID }

def Database.enroll (db : Database ι) (input : Enrollment ι) : Except Fault (Database ι) :=
  if input.notice.isNone && !input.command then .error (.invalidInput "class_member" "enrollment")
  else if input.refused then .error .refused
  else match input.candidate with
    | none => .error (.notFound "class")
    | some candidate => db.enrollInTransaction isValid input candidate

def Database.endEnrollment (db : Database ι) (id : ι) (expectedRevision : Nat) (endAt : Instant)
    (notice command refused : Bool) : Except Fault (Database ι) :=
  if (!notice && !command) || expectedRevision = 0 || endAt = 0 then .error (.invalidInput "class_member" "end")
  else match (db.members.find id).filter fun m => m.archivedAt.isNone with
    | none => .error (.notFound "class_member")
    | some current =>
      if current.effective.endsAt.isSome then
        if command then .ok db else .error (.conflict "class_member" "revision")
      else if !notice then .error (.invalidInput "class_member" "transition_notice")
      else if refused then .error .refused
      else if current.revision ≠ expectedRevision then .error (.conflict "class_member" "class_member_changed")
      else if endAt ≤ current.effective.startsAt then .error (.conflict "class_member" "class_member_end_time")
      else .ok { db with members := db.members.set (current.ended endAt endAt) }

/-! ## Invitations -/

/-- A pending student invitation, with the User who accepts it. The identifiers that `PrepareCreate`
draws and the microsecond at which it stamps both rows are inputs. -/
structure Acceptance (ι : Type) where
  classID : ι
  academicPeriodID : ι
  intendedStartsAt : Instant
  intendedEndsAt : Option Instant
  userID : ι
  affiliationID : ι
  memberID : ι
  preparedAt : Instant
  databaseNow : Instant
  refused : Bool

def Acceptance.effectiveStartsAt (input : Acceptance ι) : Instant :=
  if input.intendedStartsAt < input.databaseNow then input.databaseNow else input.intendedStartsAt

def Acceptance.affiliation (input : Acceptance ι) : Affiliation ι where
  id := input.affiliationID
  createdAt := input.preparedAt
  updatedAt := input.preparedAt
  archivedAt := none
  revision := 1
  userID := input.userID
  kind := .student
  effective := ⟨input.effectiveStartsAt, none⟩

/-- The query of `ensureInvitationStudentAffiliation`: unlike that of an enrollment, it takes an
Affiliation that ends later. -/
def Database.currentStudent (db : Database ι) (user : ι) (start : Instant) : Option (Affiliation ι) :=
  newest Affiliation.effective Affiliation.id (db.affiliations.rows.filter fun a => a.userID = user &&
    a.kind = .student && a.archivedAt.isNone && a.effective.startsAt ≤ start && before start a.effective.endsAt)

def Database.ensureInvitationStudentAffiliation (db : Database ι) (input : Acceptance ι) :
    Except Fault (Database ι) :=
  match db.currentStudent input.userID input.effectiveStartsAt with
  | some _ => .ok db
  | none =>
    if !input.affiliation.validate isValid then .error (.invalidInput "invitation" "affiliation")
    else if db.affiliationOverlaps input.affiliation then
      .error (.conflict "affiliation" "affiliations_effective_range_overlap")
    else db.insertAffiliation input.affiliation

def Acceptance.candidate (input : Acceptance ι) : ClassMember ι where
  id := input.memberID
  createdAt := input.preparedAt
  updatedAt := input.preparedAt
  archivedAt := none
  revision := 1
  classID := input.classID
  academicPeriodID := input.academicPeriodID
  userID := input.userID
  effective := ⟨input.effectiveStartsAt, input.intendedEndsAt⟩

/-- The query of `ensureInvitationClassMember`. -/
def Database.existingMember (db : Database ι) (input : Acceptance ι) : Option (ClassMember ι) :=
  newest ClassMember.effective ClassMember.id (db.members.rows.filter fun m => m.concerns input.candidate &&
    input.candidate.effective.overlaps m.effective)

def Database.ensureInvitationClassMember (db : Database ι) (input : Acceptance ι) :
    Except Fault (Database ι) :=
  match db.existingMember input with
  | some existing =>
    if existing.classID ≠ input.classID || input.effectiveStartsAt < existing.effective.startsAt ||
        (input.intendedEndsAt.any fun intended => existing.effective.endsAt.any fun e => e < intended) then
      .error (.conflict "invitation" "invitation_class_membership_conflict")
    else .ok db
  | none =>
    if !input.candidate.validate isValid then .error (.invalidInput "invitation" "class_member")
    else db.insertMember input.candidate

def Database.accept (db : Database ι) (input : Acceptance ι) : Except Fault (Database ι) :=
  if !before input.databaseNow input.intendedEndsAt then .error (.conflict "invitation" "invitation_not_pending")
  else if input.refused then .error .refused
  else do
    let db ← db.ensureInvitationStudentAffiliation isValid input
    db.ensureInvitationClassMember isValid input

/-! ## Runs -/

inductive Operation (ι : Type) where
  | createAffiliation (candidate : Affiliation ι) (command : Bool)
  | endAffiliation (id : ι) (expectedRevision : Nat) (endAt : Instant) (command : Bool)
  | enroll (input : Enrollment ι)
  | endEnrollment (id : ι) (expectedRevision : Nat) (endAt : Instant) (notice command refused : Bool)
  | accept (input : Acceptance ι)

def Database.execute (db : Database ι) : Operation ι → Except Fault (Database ι)
  | .createAffiliation candidate command => db.createAffiliation isValid candidate command
  | .endAffiliation id revision endAt command => db.endAffiliation id revision endAt command
  | .enroll input => db.enroll isValid input
  | .endEnrollment id revision endAt notice command refused =>
    db.endEnrollment id revision endAt notice command refused
  | .accept input => db.accept isValid input

def Database.run (db : Database ι) (op : Operation ι) : Database ι × Option Fault :=
  match db.execute isValid op with
  | .ok next => (next, none)
  | .error fault => (db, some fault)

def Database.step (db : Database ι) (op : Operation ι) : Option (Database ι) := some (db.run isValid op).1

end Store

end Proctor.Academics
