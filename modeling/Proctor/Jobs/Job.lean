import Proctor.ExamPolicy.NativePolicy
import Proctor.Fallible.Basic

/-! # Jobs and their attempts

The durable Job, the attempts that worked on it, and the transitions between their states. Instants
are nanoseconds after the zero `Time`; whether a document is JSON is decided outside, by
`json.Valid`, and is a parameter here. -/
namespace Proctor.Jobs

open Json ExamPolicy Fallible

abbrev Instant := Int

/-- `TimeUTC`: a whole number of microseconds. -/
def timeUTC (t : Instant) : Instant := t - t % 1000

inductive JobType where
  | profilePictureGenerateDefault | profilePictureReconcile | filePurgeExpiredContent | cleanup
  | retentionReconcile | retentionPurge | retentionNotices | retentionExpire | commandOutcomeCleanup
  | auditAttemptSweep | sessionPurgeRetired | examSittingLifecycle | examSittingLifecycleRecovery
  | examSittingSealing | mailDeliver | mailDeliverCredential | mailCleanup | mailRekey | mfaRekey
  | mailExpandSitting | invitationMaintenance | onboardingImportParse | onboardingImportExecute
  | studentProgressionPreview | examExportBuild | examExportCleanup
  deriving DecidableEq, Repr

inductive JobStatus where
  | queued | running | cancelRequested | succeeded | failed | canceled
  deriving DecidableEq, Repr

inductive JobAttemptStatus where
  | running | succeeded | failed | canceled | leaseExpired | incompatible
  deriving DecidableEq, Repr

/-- `active` permits a new occurrence after the prior Job is terminal, `permanent` reserves the key
across every lifecycle state. -/
inductive JobDedupePolicy where
  | active | permanent
  deriving DecidableEq, Repr

structure JobProgress where
  current : Int
  total : Int
  stage : Text
  deriving DecidableEq, Repr

structure Job where
  id : Text
  type : JobType
  status : JobStatus
  createdAt : Instant
  updatedAt : Instant
  availableAt : Instant
  startedAt : Option Instant
  completedAt : Option Instant
  command : Bytes
  checkpoint : Bytes
  result : Bytes
  publicErrorCode : Text
  dedupeKey : Text
  dedupePolicy : JobDedupePolicy
  attemptCount : Int
  maximumAttempts : Int
  workReserved : Int
  progress : Option JobProgress
  revision : Int
  deriving DecidableEq, Repr

structure JobAttempt where
  id : Text
  jobID : Text
  number : Int
  status : JobAttemptStatus
  nodeID : Text
  claimToken : Text
  startedAt : Instant
  heartbeatAt : Instant
  leaseExpiresAt : Instant
  completedAt : Option Instant
  publicErrorCode : Text
  deriving DecidableEq, Repr

inductive Fault where
  | invalidModel (origin entity detail : String)
  | invalidInput (entity field : String)
  | invalidPersistedState (entity field : String)
  | conflict (entity reason : String)
  | notFound (entity : String) (id : Text)
  /-- A statement or the commit that the database refused. -/
  | database
  deriving DecidableEq, Repr

/-- `JobClaimToken.IsValid`. -/
def isValidClaimToken (token : Text) : Bool := isHexOf 32 token

/-- `^[a-z][a-z0-9_.-]{0,limit}$`. -/
def isSafeName (limit : Nat) : Text → Bool
  | [] => false
  | c :: rest => ('a' ≤ c && c ≤ 'z') && rest.length ≤ limit && rest.all fun c =>
      ('a' ≤ c && c ≤ 'z') || ('0' ≤ c && c ≤ '9') || c == '_' || c == '.' || c == '-'

def validPublicJobCode (value : Text) : Bool := value.isEmpty || isSafeName 127 value

def validJobProgress : Option JobProgress → Bool
  | none => true
  | some p => 0 ≤ p.current && 0 < p.total && p.current ≤ p.total && isSafeName 63 p.stage

/-- `Revision++` on an `int64`. -/
def increment (revision : Int) : Int :=
  if revision = maximumInt64 then -9223372036854775808 else revision + 1

theorem increment_of_pos {revision : Int} (h : 0 < increment revision) :
    increment revision = revision + 1 := by
  unfold increment at h ⊢
  split at h
  · omega
  · next hMax => rw [if_neg hMax]

def JobStatus.terminal : JobStatus → Bool
  | .succeeded | .failed | .canceled => true
  | .queued | .running | .cancelRequested => false

/-- A worker is at it: `running` or `cancel_requested`. -/
def JobStatus.active : JobStatus → Bool
  | .running | .cancelRequested => true
  | .queued | .succeeded | .failed | .canceled => false

section
variable (jsonValid : Bytes → Bool)

def validJobDocument (value : Bytes) (optional : Bool) : Bool :=
  if value.isEmpty then optional else value.length ≤ 65536 && jsonValid value

namespace Job

def validate (j : Job) : Except Fault Unit :=
  if !isValidOpaqueID j.id || j.createdAt == 0 || j.updatedAt < j.createdAt || j.availableAt == 0 ||
      !validJobDocument jsonValid j.command false || j.dedupeKey.isEmpty || 255 < size j.dedupeKey ||
      j.attemptCount < 0 || j.maximumAttempts ≤ 0 || j.maximumAttempts < j.attemptCount ||
      j.workReserved < 0 || j.revision ≤ 0 then
    .error (.invalidModel "Job.Validate" "job" "invalid job")
  else if !validJobDocument jsonValid j.checkpoint true || !validJobDocument jsonValid j.result true ||
      !validPublicJobCode j.publicErrorCode || !validJobProgress j.progress then
    .error (.invalidModel "Job.Validate" "job" "invalid job result state")
  else if j.status.terminal != j.completedAt.isSome || (j.status == .running && j.attemptCount == 0) then
    .error (.invalidModel "Job.Validate" "job" "invalid job lifecycle")
  else .ok ()

/-- `return &result, result.Validate()`. -/
def validated (j : Job) : Except Fault Job := j.validate jsonValid >>= fun _ => .ok j

def start (j : Job) (instant : Instant) : Except Fault Job :=
  if j.status != .queued || j.maximumAttempts ≤ j.attemptCount || timeUTC instant < j.availableAt then
    .error (.invalidModel "Job.Start" "job" "job cannot start")
  else
    { j with
      status := .running, updatedAt := timeUTC instant, startedAt := j.startedAt.or (some (timeUTC instant)),
      attemptCount := j.attemptCount + 1, revision := increment j.revision
      : Job }.validated jsonValid

def updateProgress (j : Job) (progress : Option JobProgress) (checkpoint : Bytes) (instant : Instant) :
    Except Fault Job :=
  if !j.status.active || !validJobProgress progress || !validJobDocument jsonValid checkpoint true ||
      timeUTC instant < j.updatedAt then
    .error (.invalidModel "Job.UpdateProgress" "job" "job progress cannot be updated")
  else
    { j with
      progress := progress, checkpoint := checkpoint, updatedAt := timeUTC instant,
      revision := increment j.revision : Job }.validated jsonValid

def succeed (j : Job) (document : Bytes) (instant : Instant) : Except Fault Job :=
  if !j.status.active || !validJobDocument jsonValid document false || timeUTC instant < j.updatedAt then
    .error (.invalidModel "Job.Succeed" "job" "job cannot succeed")
  else
    { j with
      status := .succeeded, result := document, publicErrorCode := [],
      completedAt := some (timeUTC instant), updatedAt := timeUTC instant, revision := increment j.revision
      : Job }.validated jsonValid

def retry (j : Job) (publicErrorCode : Text) (availableAt instant : Instant) : Except Fault Job :=
  if j.status != .running || j.maximumAttempts ≤ j.attemptCount || !validPublicJobCode publicErrorCode ||
      timeUTC availableAt ≤ timeUTC instant || timeUTC instant < j.updatedAt then
    .error (.invalidModel "Job.Retry" "job" "job cannot retry")
  else
    { j with
      status := .queued, availableAt := timeUTC availableAt, updatedAt := timeUTC instant,
      publicErrorCode := trimSpace publicErrorCode, revision := increment j.revision
      : Job }.validated jsonValid

/-- Requeue a command that this node cannot execute and restore the consumed claim slot. -/
def relinquish (j : Job) (publicErrorCode : Text) (availableAt instant : Instant) : Except Fault Job :=
  if j.status != .running || j.maximumAttempts == maximumInt64 ||
      !validPublicJobCode publicErrorCode || publicErrorCode.isEmpty ||
      timeUTC availableAt ≤ timeUTC instant || timeUTC instant < j.updatedAt then
    .error (.invalidModel "Job.Relinquish" "job" "job cannot be relinquished")
  else
    { j with
      status := .queued, availableAt := timeUTC availableAt, updatedAt := timeUTC instant,
      publicErrorCode := trimSpace publicErrorCode, maximumAttempts := j.maximumAttempts + 1,
      revision := increment j.revision : Job }.validated jsonValid

def fail (j : Job) (publicErrorCode : Text) (instant : Instant) : Except Fault Job :=
  if !j.status.active || !validPublicJobCode publicErrorCode || publicErrorCode.isEmpty ||
      timeUTC instant < j.updatedAt then
    .error (.invalidModel "Job.Fail" "job" "job cannot fail")
  else
    { j with
      status := .failed, updatedAt := timeUTC instant, completedAt := some (timeUTC instant),
      publicErrorCode := trimSpace publicErrorCode, revision := increment j.revision
      : Job }.validated jsonValid

def cancel (j : Job) (publicErrorCode : Text) (instant : Instant) : Except Fault Job :=
  if j.status.terminal || !validPublicJobCode publicErrorCode || timeUTC instant < j.updatedAt then
    .error (.invalidModel "Job.Cancel" "job" "job cannot cancel")
  else
    { j with
      status := .canceled, updatedAt := timeUTC instant, completedAt := some (timeUTC instant),
      publicErrorCode := trimSpace publicErrorCode, revision := increment j.revision
      : Job }.validated jsonValid

/-- Queued work is canceled at once, running work is marked for its worker. -/
def requestCancellation (j : Job) (instant : Instant) : Except Fault Job :=
  if (j.status != .queued && j.status != .running) || timeUTC instant < j.updatedAt then
    .error (.invalidModel "Job.RequestCancellation" "job" "job cancellation cannot be requested")
  else if j.status == .queued then j.cancel jsonValid "job.canceled" instant
  else
    { j with
      status := .cancelRequested, updatedAt := timeUTC instant, revision := increment j.revision
      : Job }.validated jsonValid

def explicitRetry (j : Job) (instant : Instant) : Except Fault Job :=
  if (j.status != .failed && j.status != .canceled) || timeUTC instant < j.updatedAt then
    .error (.invalidModel "Job.ExplicitRetry" "job" "job cannot be explicitly retried")
  else
    { j with
      status := .queued, availableAt := timeUTC instant, updatedAt := timeUTC instant, completedAt := none,
      maximumAttempts := j.attemptCount + 1, revision := increment j.revision
      : Job }.validated jsonValid

section
variable {jsonValid : Bytes → Bool} {j j' : Job}

theorem validate_ok {u : Unit} (h : j.validate jsonValid = .ok u) :
    0 < j.revision ∧ 0 < j.maximumAttempts := by
  obtain ⟨hGuard, -⟩ := guard_ok h
  simp only [Bool.or_eq_true, decide_eq_true_eq, not_or, not_le] at hGuard
  exact ⟨hGuard.2, hGuard.1.1.1.2⟩

theorem validated_ok (h : j.validated jsonValid = .ok j') : j' = j ∧ 0 < j.revision := by
  obtain ⟨_, hValid, hSame⟩ := bind_ok h
  exact ⟨(Except.ok.inj hSame).symm, (validate_ok hValid).1⟩

variable {instant : Instant}

theorem start_ok (h : j.start jsonValid instant = .ok j') :
    j.status = .queued ∧ j.attemptCount < j.maximumAttempts ∧ j' = { j with
      status := .running, updatedAt := timeUTC instant, startedAt := j.startedAt.or (some (timeUTC instant)),
      attemptCount := j.attemptCount + 1, revision := j.revision + 1 } := by
  obtain ⟨hGuard, hNext⟩ := guard_ok h
  obtain ⟨rfl, hRev⟩ := validated_ok hNext
  simp only [Bool.or_eq_true, bne_iff_ne, decide_eq_true_eq, not_or, not_le, ne_eq, not_not] at hGuard
  exact ⟨hGuard.1.1, hGuard.1.2, by rw [increment_of_pos hRev]⟩

theorem updateProgress_ok {progress : Option JobProgress} {checkpoint : Bytes}
    (h : j.updateProgress jsonValid progress checkpoint instant = .ok j') :
    j.status.active ∧ j' = { j with
      progress := progress, checkpoint := checkpoint, updatedAt := timeUTC instant,
      revision := j.revision + 1 } := by
  obtain ⟨hGuard, hNext⟩ := guard_ok h
  obtain ⟨rfl, hRev⟩ := validated_ok hNext
  simp only [Bool.or_eq_true, Bool.not_eq_true', not_or, Bool.not_eq_false] at hGuard
  exact ⟨hGuard.1.1.1, by rw [increment_of_pos hRev]⟩

theorem succeed_ok {document : Bytes} (h : j.succeed jsonValid document instant = .ok j') :
    j' = { j with
      status := .succeeded, result := document, publicErrorCode := [],
      completedAt := some (timeUTC instant), updatedAt := timeUTC instant, revision := j.revision + 1 } := by
  obtain ⟨-, hNext⟩ := guard_ok h
  obtain ⟨rfl, hRev⟩ := validated_ok hNext
  rw [increment_of_pos hRev]

variable {code : Text}

theorem retry_ok {availableAt instant : Instant}
    (h : j.retry jsonValid code availableAt instant = .ok j') :
    j' = { j with
      status := .queued, availableAt := timeUTC availableAt, updatedAt := timeUTC instant,
      publicErrorCode := trimSpace code, revision := j.revision + 1 } := by
  obtain ⟨-, hNext⟩ := guard_ok h
  obtain ⟨rfl, hRev⟩ := validated_ok hNext
  rw [increment_of_pos hRev]

theorem relinquish_ok {availableAt instant : Instant}
    (h : j.relinquish jsonValid code availableAt instant = .ok j') :
    j' = { j with
      status := .queued, availableAt := timeUTC availableAt, updatedAt := timeUTC instant,
      publicErrorCode := trimSpace code, maximumAttempts := j.maximumAttempts + 1,
      revision := j.revision + 1 } := by
  obtain ⟨-, hNext⟩ := guard_ok h
  obtain ⟨rfl, hRev⟩ := validated_ok hNext
  rw [increment_of_pos hRev]

theorem fail_ok (h : j.fail jsonValid code instant = .ok j') :
    j' = { j with
      status := .failed, updatedAt := timeUTC instant, completedAt := some (timeUTC instant),
      publicErrorCode := trimSpace code, revision := j.revision + 1 } := by
  obtain ⟨-, hNext⟩ := guard_ok h
  obtain ⟨rfl, hRev⟩ := validated_ok hNext
  rw [increment_of_pos hRev]

theorem cancel_ok (h : j.cancel jsonValid code instant = .ok j') :
    j.status.terminal = false ∧ j' = { j with
      status := .canceled, updatedAt := timeUTC instant, completedAt := some (timeUTC instant),
      publicErrorCode := trimSpace code, revision := j.revision + 1 } := by
  obtain ⟨hGuard, hNext⟩ := guard_ok h
  obtain ⟨rfl, hRev⟩ := validated_ok hNext
  simp only [Bool.or_eq_true, Bool.not_eq_true', not_or, Bool.not_eq_true] at hGuard
  exact ⟨hGuard.1.1, by rw [increment_of_pos hRev]⟩

theorem requestCancellation_ok (h : j.requestCancellation jsonValid instant = .ok j') :
    (j.status = .queued ∧ j.cancel jsonValid "job.canceled" instant = .ok j') ∨
    (j.status = .running ∧ j' = { j with
      status := .cancelRequested, updatedAt := timeUTC instant, revision := j.revision + 1 }) := by
  obtain ⟨hGuard, hNext⟩ := guard_ok h
  by_cases hQueued : j.status = .queued
  · rw [if_pos (by rw [hQueued]; rfl)] at hNext
    exact .inl ⟨hQueued, hNext⟩
  rw [if_neg (by simpa using hQueued)] at hNext
  obtain ⟨rfl, hRev⟩ := validated_ok hNext
  have hRun : j.status = .running := by
    by_contra hOther
    exact hGuard (by simp [hQueued, hOther])
  exact .inr ⟨hRun, by rw [increment_of_pos hRev]⟩

theorem explicitRetry_ok (h : j.explicitRetry jsonValid instant = .ok j') :
    j.status.terminal ∧ j' = { j with
      status := .queued, availableAt := timeUTC instant, updatedAt := timeUTC instant,
      completedAt := none, maximumAttempts := j.attemptCount + 1, revision := j.revision + 1 } := by
  obtain ⟨hGuard, hNext⟩ := guard_ok h
  obtain ⟨rfl, hRev⟩ := validated_ok hNext
  refine ⟨?_, by rw [increment_of_pos hRev]⟩
  cases hStat : j.status <;> first | rfl | (exfalso; exact hGuard (by simp [hStat]))

end
end Job
end

namespace JobAttempt

def validate (a : JobAttempt) : Except Fault Unit :=
  if !isValidOpaqueID a.id || !isValidOpaqueID a.jobID || a.number ≤ 0 || a.nodeID.isEmpty ||
      255 < size a.nodeID || !isValidClaimToken a.claimToken || a.startedAt == 0 ||
      a.heartbeatAt < a.startedAt || a.leaseExpiresAt ≤ a.heartbeatAt ||
      !validPublicJobCode a.publicErrorCode then
    .error (.invalidModel "JobAttempt.Validate" "job_attempt" "invalid job attempt")
  else if (a.status == .running) == a.completedAt.isSome then
    .error (.invalidModel "JobAttempt.Validate" "job_attempt" "invalid job attempt lifecycle")
  else .ok ()

def validated (a : JobAttempt) : Except Fault JobAttempt := a.validate >>= fun _ => .ok a

def heartbeat (a : JobAttempt) (instant leaseExpiresAt : Instant) : Except Fault JobAttempt :=
  if a.status != .running || timeUTC instant < a.heartbeatAt || timeUTC leaseExpiresAt ≤ timeUTC instant then
    .error (.invalidModel "JobAttempt.Heartbeat" "job_attempt" "job attempt cannot heartbeat")
  else
    { a with heartbeatAt := timeUTC instant, leaseExpiresAt := timeUTC leaseExpiresAt
      : JobAttempt }.validated

def complete (a : JobAttempt) (status : JobAttemptStatus) (publicErrorCode : Text) (instant : Instant) :
    Except Fault JobAttempt :=
  if a.status != .running || status == .running || timeUTC instant < a.heartbeatAt then
    .error (.invalidModel "JobAttempt.Complete" "job_attempt" "job attempt cannot complete")
  else
    { a with
      status := status, publicErrorCode := trimSpace publicErrorCode, completedAt := some (timeUTC instant)
      : JobAttempt }.validated

variable {a a' : JobAttempt}

theorem validated_ok (h : a.validated = .ok a') : a' = a := by
  obtain ⟨-, -, hSame⟩ := bind_ok h
  exact (Except.ok.inj hSame).symm

theorem heartbeat_ok {instant leaseExpiresAt : Instant}
    (h : a.heartbeat instant leaseExpiresAt = .ok a') :
    a' = { a with heartbeatAt := timeUTC instant, leaseExpiresAt := timeUTC leaseExpiresAt } := by
  obtain ⟨-, hNext⟩ := guard_ok h
  exact validated_ok hNext

theorem complete_ok {status : JobAttemptStatus} {code : Text} {instant : Instant}
    (h : a.complete status code instant = .ok a') :
    status ≠ .running ∧ a' = { a with
      status := status, publicErrorCode := trimSpace code, completedAt := some (timeUTC instant) } := by
  obtain ⟨hGuard, hNext⟩ := guard_ok h
  refine ⟨fun hRun => hGuard ?_, validated_ok hNext⟩
  rw [hRun]
  simp

end JobAttempt

def newJobAttempt (id jobID : Text) (number : Int) (nodeID token : Text)
    (startedAt leaseExpiresAt : Instant) : Except Fault JobAttempt :=
  { id := id, jobID := jobID, number := number, status := .running, nodeID := trimSpace nodeID,
    claimToken := token, startedAt := timeUTC startedAt, heartbeatAt := timeUTC startedAt,
    leaseExpiresAt := timeUTC leaseExpiresAt, completedAt := none, publicErrorCode := []
    : JobAttempt }.validated

end Proctor.Jobs
