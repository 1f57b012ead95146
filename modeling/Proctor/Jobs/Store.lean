import Proctor.Jobs.Job
import Proctor.Keyed.Table

/-! # The Job store

The eight operations of `SQLJobStore`, each one transaction over the three tables: what a
transaction reads, checks and writes, at the database's time. A transaction that fails anywhere
writes nothing; the request says whether the statements that are not modelled here (the operator
audit event, the column types, the commit) went through. -/
namespace Proctor.Jobs

open Json ExamPolicy Keyed

/-- A row of `job_permanent_occurrences`. -/
structure Occurrence where
  type : JobType
  dedupeKey : Text
  jobID : Text
  createdAt : Instant
  deriving DecidableEq, Repr

structure JobTables where
  jobs : Table Job.id
  attempts : Table JobAttempt.id
  occurrences : List Occurrence

def JobTables.empty : JobTables := ⟨.empty, .empty, []⟩

def JobTables.attemptsOf (t : JobTables) (id : Text) : List JobAttempt :=
  t.attempts.rows.filter fun a => a.jobID == id

structure JobClaimRequest where
  types : List JobType
  nodeID : Text
  claimToken : Text
  leaseDuration : Int

structure JobHeartbeat where
  attemptID : Text
  claimToken : Text
  leaseDuration : Int

structure JobCheckpoint where
  attemptID : Text
  claimToken : Text
  progress : Option JobProgress
  checkpoint : Bytes

structure JobWorkReservation where
  attemptID : Text
  claimToken : Text
  units : Int
  limit : Int

inductive JobCompletionKind where
  | succeeded | retryableFailure | relinquished | permanentFailure | canceled
  /-- Any other string. -/
  | unknown
  deriving DecidableEq, Repr

structure JobCompletion where
  attemptID : Text
  claimToken : Text
  kind : JobCompletionKind
  retryDelay : Int
  result : Bytes
  publicErrorCode : Text

structure JobMutation where
  id : Text
  expectedRevision : Int
  auditEventID : Text
  auditAt : Instant

inductive Answer where
  | enqueued (job : Option Job) (created : Bool)
  | claimed (job : Job) (attempt : JobAttempt)
  /-- Lost attempts were expired and nothing was left to claim. -/
  | recovered
  | attempt (a : JobAttempt)
  | job (j : Job)
  | reservation (reserved : Bool) (consumed : Int)

def hour : Int := 3600000000000

/-- `GREATEST(updated_at, ?)`. -/
def latestTime (persisted requested : Instant) : Instant :=
  if persisted < requested then timeUTC requested else timeUTC persisted

def reportAs {α : Type} (fault : Fault) : Except Fault α → Except Fault α
  | .ok a => .ok a
  | .error _ => .error fault

/-- The ranges of the `integer` and `bigint` columns. -/
def storable (j : Job) : Bool :=
  j.attemptCount ≤ 2147483647 && j.maximumAttempts ≤ 2147483647 && j.workReserved ≤ 2147483647 &&
    j.revision ≤ maximumInt64

/-- Whether two rows clash in `jobs_active_type_dedupe_key_idx`. -/
def activeDuplicate (a b : Job) : Bool :=
  a.type == b.type && a.dedupeKey == b.dedupeKey &&
    a.dedupePolicy == .active && b.dedupePolicy == .active && !a.status.terminal && !b.status.terminal

/-- Whether two rows clash in `jobs_permanent_type_dedupe_key_idx`. -/
def permanentDuplicate (a b : Job) : Bool :=
  a.type == b.type && a.dedupeKey == b.dedupeKey &&
    a.dedupePolicy == .permanent && b.dedupePolicy == .permanent

/-- The row that `insertQueuedJob` writes. -/
def queuedRow (j : Job) : Job :=
  { j with
    startedAt := none, completedAt := none, checkpoint := [], result := [], publicErrorCode := [],
    attemptCount := 0, workReserved := 0, progress := none }

def insertQueuedJob (t : JobTables) (j : Job) : Except Fault JobTables :=
  if !storable (queuedRow j) || t.jobs.rows.any (permanentDuplicate j) || t.jobs.rows.any (activeDuplicate j) then
    .error .database
  else match t.jobs.insert (queuedRow j) with
    | none => .error .database
    | some jobs => .ok { t with jobs := jobs }

def getFencedAttempt (t : JobTables) (id token : Text) (now : Instant) : Except Fault JobAttempt :=
  match t.attempts.find id with
  | none => .error (.notFound "job_attempt" id)
  | some a => do
    reportAs (.invalidPersistedState "job_attempt" "value") a.validate
    if a.claimToken != token || a.status != .running || a.leaseExpiresAt ≤ timeUTC now then
      .error (.conflict "job_attempt" "claim_lost")
    else .ok a

/-- The columns that `updateJob` sets. -/
def updatedRow (row j : Job) : Job :=
  { row with
    status := j.status, updatedAt := j.updatedAt, availableAt := j.availableAt,
    startedAt := j.startedAt, completedAt := j.completedAt, checkpoint := j.checkpoint,
    result := j.result, publicErrorCode := j.publicErrorCode, attemptCount := j.attemptCount,
    maximumAttempts := j.maximumAttempts, workReserved := j.workReserved, progress := j.progress,
    revision := j.revision }

/-- `updateJob`: the row is still at the revision before. -/
def updateJob (t : JobTables) (j : Job) : Except Fault JobTables :=
  match t.jobs.find j.id with
  | none => .error (.conflict "job" "job_changed")
  | some row =>
    if row.revision ≠ j.revision - 1 then .error (.conflict "job" "job_changed")
    else if !storable (updatedRow row j) ||
        t.jobs.rows.any (fun r => r.id != j.id && activeDuplicate r (updatedRow row j)) then
      .error .database
    else .ok { t with jobs := t.jobs.set (updatedRow row j) }

/-- Whether `ClaimNext` takes the attempt for lost. -/
def leaseLost (now : Instant) (a : JobAttempt) : Bool := a.status == .running && a.leaseExpiresAt ≤ now

def expireLost (now : Instant) (a : JobAttempt) : JobAttempt :=
  if leaseLost now a then { a with status := .leaseExpired, completedAt := some now } else a

theorem expireLost_id (now : Instant) (a : JobAttempt) : (expireLost now a).id = a.id := by
  unfold expireLost
  split <;> rfl

theorem expireLost_jobID (now : Instant) (a : JobAttempt) : (expireLost now a).jobID = a.jobID := by
  unfold expireLost
  split <;> rfl

def latestAttempt : List JobAttempt → Option JobAttempt
  | [] => none
  | a :: rest => match latestAttempt rest with
    | none => some a
    | some b => if b.number < a.number then some a else some b

/-- The delay after a lost lease: the lease's own duration, doubled with each attempt, at most an
hour. -/
def leaseExpiryBackoff (attempts : List JobAttempt) (j : Job) : Int :=
  let lost := attempts.filter fun a => a.jobID == j.id && a.status == .leaseExpired
  let lease := match latestAttempt lost with
    | none => 0
    | some a => a.leaseExpiresAt - a.heartbeatAt
  min (lease * 2 ^ (min (max (j.attemptCount - 1) 0) 10).toNat) hour

def recoverExpired (now : Instant) (attempts : List JobAttempt) (j : Job) : Job :=
  if j.status.active then
    let terminal := j.status == .cancelRequested || j.maximumAttempts ≤ j.attemptCount
    { j with
      status := if j.status == .cancelRequested then .canceled
        else if j.maximumAttempts ≤ j.attemptCount then .failed else .queued
      completedAt := if terminal then some now else none
      publicErrorCode := if j.status == .cancelRequested then "job.canceled"
        else if j.maximumAttempts ≤ j.attemptCount then "job.lease_expired" else j.publicErrorCode
      availableAt := now + leaseExpiryBackoff attempts j
      updatedAt := max j.updatedAt now
      revision := j.revision + 1 }
  else j

theorem recoverExpired_id (now : Instant) (attempts : List JobAttempt) (j : Job) :
    (recoverExpired now attempts j).id = j.id := by
  unfold recoverExpired
  split <;> rfl

/-- The `UPDATE jobs … WHERE id = ?` of one expired attempt. -/
def recoverJob (now : Instant) (attempts : List JobAttempt) (jobs : Table Job.id) (id : Text) :
    Table Job.id :=
  jobs.mapRows (fun j => if j.id = id then recoverExpired now attempts j else j) fun j => by
    split
    · exact recoverExpired_id now attempts j
    · rfl

/-- The first part of `ClaimNext`: every lost attempt expires and its Job is recovered. -/
def recoverLost (t : JobTables) (now : Instant) : Except Fault JobTables :=
  let attempts := t.attempts.mapRows (expireLost now) (expireLost_id now)
  let expiredJobIDs := (t.attempts.rows.filter (leaseLost now)).map JobAttempt.jobID
  let jobs := expiredJobIDs.foldl (recoverJob now attempts.rows) t.jobs
  if jobs.rows.all storable then .ok { t with jobs := jobs, attempts := attempts } else .error .database

def claimable (t : JobTables) (request : JobClaimRequest) (now : Instant) (j : Job) : Bool :=
  j.status == .queued && j.availableAt ≤ now && j.attemptCount < j.maximumAttempts &&
    request.types.contains j.type &&
    !(t.attempts.rows.any fun a =>
      a.jobID == j.id && a.nodeID == trimSpace request.nodeID && a.status == .incompatible)

/-- `ORDER BY available_at, created_at, id`. -/
def Job.before (a b : Job) : Bool :=
  a.availableAt < b.availableAt || (a.availableAt == b.availableAt &&
    (a.createdAt < b.createdAt || (a.createdAt == b.createdAt && utf8 a.id < utf8 b.id)))

def earliest : List Job → Option Job
  | [] => none
  | j :: rest => match earliest rest with
    | none => some j
    | some b => if b.before j then some b else some j

/-- The indexes of `job_attempts`. -/
def insertAttempt (t : JobTables) (a : JobAttempt) : Except Fault JobTables :=
  if t.attempts.rows.any fun x => x.claimToken == a.claimToken || (x.jobID == a.jobID && x.number == a.number) then
    .error .database
  else match t.attempts.insert a with
    | none => .error .database
    | some attempts => .ok { t with attempts := attempts }

section
variable (jsonValid : Bytes → Bool)

def persistedJob (j : Job) : Except Fault Job :=
  reportAs (.invalidPersistedState "job" "value") (j.validate jsonValid) >>= fun _ => .ok j

def getJob (t : JobTables) (id : Text) : Except Fault Job :=
  if !isValidOpaqueID id then .error (.invalidInput "job" "id")
  else match t.jobs.find id with
    | none => .error (.notFound "job" id)
    | some j => persistedJob jsonValid j

def existingJob : Option Job → Except Fault (Option Job)
  | none => .ok none
  | some j => persistedJob jsonValid j >>= fun j => .ok (some j)

def enqueue (t : JobTables) (j : Job) : Except Fault (Answer × JobTables) :=
  if (j.validate jsonValid).isOk = false || j.status != .queued || j.attemptCount != 0 then
    .error (.invalidInput "job" "enqueue")
  else match j.dedupePolicy with
    | .permanent =>
      match t.occurrences.find? fun o => o.type == j.type && o.dedupeKey == j.dedupeKey with
      | some o => do
        let existing ← existingJob jsonValid (t.jobs.find o.jobID)
        .ok (.enqueued existing false, t)
      | none => do
        let t ← insertQueuedJob
          { t with occurrences := t.occurrences ++ [⟨j.type, j.dedupeKey, j.id, j.createdAt⟩] } j
        .ok (.enqueued (some j) true, t)
    | .active =>
      match t.jobs.rows.find? (activeDuplicate j) with
      | some row => do
        let existing ← existingJob jsonValid (some row)
        .ok (.enqueued existing false, t)
      | none => do
        let t ← insertQueuedJob t j
        .ok (.enqueued (some j) true, t)

/-- The second part of `ClaimNext`: the selected row starts and gets its attempt. -/
def startClaimed (t : JobTables) (request : JobClaimRequest) (attemptID : Text) (now : Instant)
    (row : Job) : Except Fault (Answer × JobTables) := do
  let job ← persistedJob jsonValid row
  let running ← reportAs (.conflict "job" "not_claimable")
    (job.start jsonValid (latestTime job.updatedAt now))
  let t ← updateJob t running
  let attempt ← reportAs (.invalidInput "job_attempt" "claim")
    (newJobAttempt attemptID running.id running.attemptCount request.nodeID request.claimToken now
      (now + request.leaseDuration))
  let t ← insertAttempt t attempt
  .ok (.claimed running attempt, t)

def claimNext (t : JobTables) (request : JobClaimRequest) (attemptID : Text) (now : Instant) :
    Except Fault (Answer × JobTables) :=
  if request.types.isEmpty || (trimSpace request.nodeID).isEmpty ||
      !isValidClaimToken request.claimToken || request.leaseDuration ≤ 0 || hour < request.leaseDuration then
    .error (.invalidInput "job" "claim")
  else do
    let recovered ← recoverLost t now
    match earliest (recovered.jobs.rows.filter (claimable recovered request now)) with
    | none =>
      if t.attempts.rows.any (leaseLost now) then .ok (.recovered, recovered)
      else .error (.notFound "job" "claimable")
    | some row => startClaimed jsonValid recovered request attemptID now row

def heartbeat (t : JobTables) (input : JobHeartbeat) (now : Instant) :
    Except Fault (Answer × JobTables) :=
  if !isValidOpaqueID input.attemptID || !isValidClaimToken input.claimToken ||
      input.leaseDuration ≤ 0 || hour < input.leaseDuration then
    .error (.invalidInput "job_attempt" "heartbeat")
  else do
    let attempt ← getFencedAttempt t input.attemptID input.claimToken now
    let heartbeatAt := latestTime attempt.heartbeatAt now
    let beaten ← reportAs (.conflict "job_attempt" "not_running")
      (attempt.heartbeat heartbeatAt (heartbeatAt + input.leaseDuration))
    .ok (.attempt beaten, { t with attempts := t.attempts.set beaten })

def checkpoint (t : JobTables) (input : JobCheckpoint) (now : Instant) :
    Except Fault (Answer × JobTables) :=
  if !isValidOpaqueID input.attemptID || !isValidClaimToken input.claimToken then
    .error (.invalidInput "job" "checkpoint")
  else do
    let attempt ← getFencedAttempt t input.attemptID input.claimToken now
    let job ← getJob jsonValid t attempt.jobID
    let updated ← reportAs (.invalidInput "job" "checkpoint")
      (job.updateProgress jsonValid input.progress input.checkpoint (latestTime job.updatedAt now))
    let t ← updateJob t updated
    .ok (.job updated, t)

def reservedRow (j : Job) (units : Int) (now : Instant) : Job :=
  { j with workReserved := j.workReserved + units, updatedAt := max j.updatedAt now, revision := j.revision + 1 }

def reserveWork (t : JobTables) (input : JobWorkReservation) (now : Instant) :
    Except Fault (Answer × JobTables) :=
  if !isValidOpaqueID input.attemptID || !isValidClaimToken input.claimToken || input.units ≤ 0 ||
      input.limit ≤ 0 || input.limit < input.units || 1000000 < input.limit then
    .error (.invalidInput "job" "reserve_work")
  else do
    let attempt ← getFencedAttempt t input.attemptID input.claimToken now
    match t.jobs.find attempt.jobID with
    | none => .error (.notFound "job" attempt.jobID)
    | some j =>
      if j.workReserved + input.units ≤ input.limit then
        if storable (reservedRow j input.units now) then
          .ok (.reservation true (j.workReserved + input.units),
            { t with jobs := t.jobs.set (reservedRow j input.units now) })
        else .error .database
      else .ok (.reservation false j.workReserved, t)

def retryOrFail (j : Job) (code : Text) (availableAt jobAt : Instant) : Except Fault Job :=
  if j.attemptCount < j.maximumAttempts then j.retry jsonValid code availableAt jobAt
  else j.fail jsonValid code jobAt

/-- A requeue cannot leave `cancel_requested`, so the attempt honors the cancellation instead. -/
def honorsCancellation (j : Job) (kind : JobCompletionKind) : Bool :=
  j.status == .cancelRequested && (kind == .retryableFailure || kind == .relinquished)

def completeAs (j : Job) (kind : JobCompletionKind) (code : Text) (input : JobCompletion)
    (jobAt : Instant) : Except Fault (Job × JobAttemptStatus) :=
  match kind with
  | .succeeded => j.succeed jsonValid input.result jobAt >>= fun updated => .ok (updated, .succeeded)
  | .retryableFailure =>
    retryOrFail jsonValid j code (jobAt + input.retryDelay) jobAt >>= fun updated => .ok (updated, .failed)
  | .relinquished =>
    j.relinquish jsonValid code (jobAt + input.retryDelay) jobAt >>= fun updated =>
      .ok (updated, .incompatible)
  | .permanentFailure => j.fail jsonValid code jobAt >>= fun updated => .ok (updated, .failed)
  | .canceled => j.cancel jsonValid code jobAt >>= fun updated => .ok (updated, .canceled)
  | .unknown => .error (.invalidInput "job" "completion")

def complete (t : JobTables) (input : JobCompletion) (now : Instant) :
    Except Fault (Answer × JobTables) :=
  if !isValidOpaqueID input.attemptID || !isValidClaimToken input.claimToken || input.retryDelay < 0 ||
      24 * hour < input.retryDelay then
    .error (.invalidInput "job" "completion")
  else do
    let attempt ← getFencedAttempt t input.attemptID input.claimToken now
    let job ← getJob jsonValid t attempt.jobID
    let honored := honorsCancellation job input.kind
    let kind := if honored then .canceled else input.kind
    let code := if honored then "job.canceled".toList else input.publicErrorCode
    let (updated, attemptStatus) ← reportAs (.invalidInput "job" "completion")
      (completeAs jsonValid job kind code input (latestTime job.updatedAt now))
    let completed ← reportAs (.invalidInput "job_attempt" "completion")
      (attempt.complete attemptStatus code (latestTime attempt.heartbeatAt now))
    let t ← updateJob { t with attempts := t.attempts.set completed } updated
    .ok (.job updated, t)

def mutateOperatorJob (t : JobTables) (input : JobMutation) (operation : String)
    (mutate : Job → Instant → Except Fault Job) (now : Instant) : Except Fault (Answer × JobTables) :=
  if !isValidOpaqueID input.id || input.expectedRevision ≤ 0 || !isValidOpaqueID input.auditEventID ||
      input.auditAt == 0 then
    .error (.invalidInput "job" operation)
  else do
    let job ← getJob jsonValid t input.id
    if job.revision ≠ input.expectedRevision then .error (.conflict "job" "job_changed")
    else do
      let updated ← reportAs (.conflict "job" (operation ++ "_unsupported"))
        (mutate job (latestTime job.updatedAt now))
      let t ← updateJob t updated
      .ok (.job updated, t)

def cancel (t : JobTables) (input : JobMutation) (now : Instant) : Except Fault (Answer × JobTables) :=
  mutateOperatorJob jsonValid t input "cancel" (fun j => j.requestCancellation jsonValid) now

def retry (t : JobTables) (input : JobMutation) (now : Instant) : Except Fault (Answer × JobTables) :=
  mutateOperatorJob jsonValid t input "retry" (fun j => j.explicitRetry jsonValid) now

inductive Operation where
  | enqueue (job : Job)
  /-- The attempt id is the one `NewJobAttemptID` draws. -/
  | claimNext (request : JobClaimRequest) (attemptID : Text)
  | heartbeat (input : JobHeartbeat)
  | checkpoint (input : JobCheckpoint)
  | reserveWork (input : JobWorkReservation)
  | complete (input : JobCompletion)
  | cancel (input : JobMutation)
  | retry (input : JobMutation)

/-- One transaction: the operation, the database's time, and whether the database let it commit. -/
structure Request where
  operation : Operation
  now : Instant
  commits : Bool

def Operation.execute (t : JobTables) (now : Instant) : Operation → Except Fault (Answer × JobTables)
  | .enqueue job => Jobs.enqueue jsonValid t job
  | .claimNext request attemptID => Jobs.claimNext jsonValid t request attemptID now
  | .heartbeat input => Jobs.heartbeat t input now
  | .checkpoint input => Jobs.checkpoint jsonValid t input now
  | .reserveWork input => Jobs.reserveWork t input now
  | .complete input => Jobs.complete jsonValid t input now
  | .cancel input => Jobs.cancel jsonValid t input now
  | .retry input => Jobs.retry jsonValid t input now

end

def Operation.claim : Operation → Option (Text × Text)
  | .heartbeat input => some (input.attemptID, input.claimToken)
  | .checkpoint input => some (input.attemptID, input.claimToken)
  | .reserveWork input => some (input.attemptID, input.claimToken)
  | .complete input => some (input.attemptID, input.claimToken)
  | .enqueue _ | .claimNext _ _ | .cancel _ | .retry _ => none

end Proctor.Jobs
