import Proctor.Jobs.Job
import Proctor.Keyed.Table

/-! # Retained command outcomes

A mutation that carries an idempotency key runs in one transaction with the record of its outcome:
the transaction replays a recorded outcome, records a duplicate batch member against its canonical
member, or executes the mutation. The callbacks of a mutation are given the whole of the database
but for the three tables written here, as the type `D`. A missing command or callback is refused
before anything is read and is not modelled. -/
namespace Proctor.Commands

open Json ExamPolicy Keyed
open Jobs (Instant)

abbrev Digest := BitVec 256

inductive Fault where
  | invalidInput (entity field : String)
  | conflict (entity reason : String)
  | idempotencyConflict
  | idempotencyInProgress
  | invalidPersistedState (entity field : String)
  | notFound (entity field : String)
  /-- What a callback or a fence answered. -/
  | refused (reason : String)
  /-- A statement or the commit that the database refused. -/
  | database
  deriving DecidableEq, Repr

structure CommandBatch where
  groupDigest : Digest
  duplicateOfKeyDigest : Digest
  deriving DecidableEq, Repr

/-- `A` is the terminal authority that an academic-administration batch row requires. -/
structure CommandIdempotency (A : Type) where
  userID : Text
  operation : Text
  keyDigest : Digest
  fingerprint : Digest
  retention : Int
  wait : Int
  onboardingImportID : Text
  onboardingImportRowNumber : Int
  authorization : Option A
  batch : Option CommandBatch

structure CommandKey where
  userID : Text
  operation : Text
  keyDigest : Digest
  deriving DecidableEq, Repr

def CommandIdempotency.key {A : Type} (c : CommandIdempotency A) : CommandKey :=
  ⟨c.userID, c.operation, c.keyDigest⟩

structure CommandOutcomeRow where
  key : CommandKey
  fingerprint : Digest
  outcome : Bytes
  batchGroupDigest : Option Digest
  duplicateOfKeyDigest : Option Digest
  originalAuditID : Option Text
  createdAt : Instant
  expiresAt : Instant
  deriving DecidableEq, Repr

inductive OnboardingImportRowStatus where
  | valid | invalid | duplicate | pending | succeeded | noOp | failed | skipped | canceled
  deriving DecidableEq, Repr

inductive OnboardingImportState where
  | uploading | parsing | previewReady | executing | completed | completedWithErrors | canceled | failed
  deriving DecidableEq, Repr

/-- The columns of `onboarding_imports` that a settled row changes. -/
structure OnboardingImport where
  id : Text
  state : OnboardingImportState
  succeededRows : Nat
  noOpRows : Nat
  failedRows : Nat
  skippedRows : Nat
  updatedAt : Instant
  revision : Int
  /-- Whether the stored principal decodes to a valid one. -/
  principalValid : Bool
  deriving DecidableEq, Repr

/-- A row of `onboarding_import_rows`; an absent invitation or result is the empty text. -/
structure OnboardingImportRow where
  key : Text × Int
  status : OnboardingImportRowStatus
  publicCode : Text
  invitationID : Text
  resultRef : Text
  updatedAt : Instant
  deriving DecidableEq, Repr

structure OnboardingImportCommandResult where
  status : OnboardingImportRowStatus
  invitationID : Text
  resourceID : Text
  deriving DecidableEq, Repr

structure Database (D : Type) where
  outcomes : Table CommandOutcomeRow.key
  importRows : Table OnboardingImportRow.key
  imports : Table OnboardingImport.id
  rest : D

structure IdempotentMutation (D A V : Type) where
  command : CommandIdempotency A
  auditEventID : Text
  execute : D → Except Fault (V × D)
  encode : V → Except Fault Bytes
  decode : Bytes → Except Fault V
  hydrateReplay : Option (D → V → Except Fault (V × D))
  completeReplay : Option (D → V → Text → Except Fault D)
  completeDuplicate : Option (D → V → Text → Except Fault D)
  freshAuditEventID : Option (V → Except Fault Text)
  onboardingOutcome : Option (V → Except Fault OnboardingImportCommandResult)

/-- Which of its three ways a mutation took: the `Replayed` of its result and the `Duplicate` of its
batch. The replay of a duplicate row, which sets both, is not told from other replays. -/
inductive Disposition where
  | executed | duplicate | replayed
  deriving DecidableEq, Repr

structure IdempotentResult (V : Type) where
  value : V
  disposition : Disposition
  deriving DecidableEq, Repr

/-- The fences and the database functions that a mutation meets on its way. -/
structure Server (D A : Type) where
  validCommandAuthorization : A → Bool
  lockCommandAuthorization : Database D → A → Except Fault Unit
  lockOnboardingImportRow : Database D → Text → Int → Except Fault Unit
  completeBatchDuplicateAudit : D → Text → Text → Except Fault D
  /-- `json.Valid`. -/
  jsonValid : Bytes → Bool
  /-- The text that a `jsonb` column reads back, where it accepts the document. -/
  jsonb : Bytes → Option Bytes
  /-- The foreign keys to the users and the audit events. -/
  references : D → Text → Option Text → Bool

def commandOutcomeMaxBytes : Nat := 65536

/-- `Retention.Milliseconds()` in nanoseconds. -/
def retainedFor (retention : Int) : Int := retention.tdiv 1000000 * 1000000

def isOperationName (rest : Text) : Bool :=
  match rest with
  | [] => false
  | c :: tail => ('a' ≤ c && c ≤ 'z') && tail.all fun c =>
      ('a' ≤ c && c ≤ 'z') || ('0' ≤ c && c ≤ '9') || c == '_'

/-- `command_outcomes_operation_check` and the width of the column. -/
def isOperation (operation : Text) : Bool :=
  let parts := operation.splitOn '.'
  operation.length ≤ 128 && 2 ≤ parts.length && parts.all isOperationName

variable {D A V : Type}

def validCommandBatch (batch : Option CommandBatch) (keyDigest : Digest) : Bool :=
  match batch with
  | none => true
  | some b => !(b.groupDigest == 0 || b.duplicateOfKeyDigest == keyDigest)

/-- The insertion into `command_outcomes`, with the constraints of the table. -/
def insertOutcome (server : Server D A) (db : Database D) (row : CommandOutcomeRow) :
    Except Fault (Database D) :=
  match server.jsonb row.outcome with
  | none => .error .database
  | some stored =>
    if commandOutcomeMaxBytes < stored.length || row.expiresAt ≤ row.createdAt ||
        (row.originalAuditID.isNone && row.key.operation != "user_settings.replace") ||
        (row.duplicateOfKeyDigest.isSome && row.batchGroupDigest.isNone) ||
        !isOperation row.key.operation ||
        !server.references db.rest row.key.userID row.originalAuditID then
      .error .database
    else match db.outcomes.insert { row with outcome := stored } with
      | none => .error .database
      | some outcomes => .ok { db with outcomes := outcomes }

def lockOnboardingImportCommand (server : Server D A) (db : Database D) (c : CommandIdempotency A) :
    Except Fault Unit :=
  if c.onboardingImportID.isEmpty && c.onboardingImportRowNumber == 0 then .ok ()
  else if !isValidOpaqueID c.onboardingImportID || c.onboardingImportRowNumber < 1 then
    .error (.invalidInput "onboarding_import_row" "command")
  else server.lockOnboardingImportRow db c.onboardingImportID c.onboardingImportRowNumber

/-- The fences in their order; `inTime` says whether the command's own fence was free before its
wait was over. The lock on the authentication paths of administrators only waits, and is left out. -/
def lockIdempotentCommand (server : Server D A) (db : Database D) (c : CommandIdempotency A)
    (inTime : Bool) : Except Fault Unit :=
  if !inTime then .error .idempotencyInProgress
  else do
    lockOnboardingImportCommand server db c
    match c.authorization with
    | none => pure ()
    | some authority => server.lockCommandAuthorization db authority

def Database.countRows (db : Database D) (id : Text) (statuses : List OnboardingImportRowStatus) : Nat :=
  db.importRows.rows.countP fun row => row.key.1 == id && statuses.contains row.status

def refreshOnboardingImportCounts (db : Database D) (id : Text) (at_ : Instant) : Except Fault (Database D) :=
  match db.imports.find id with
  | none => .error (.notFound "onboarding_import" "id")
  | some current =>
    if !current.principalValid then .error (.refused "decode onboarding import principal")
    else
      .ok { db with imports := db.imports.set { current with
        succeededRows := db.countRows id [.succeeded], noOpRows := db.countRows id [.noOp]
        failedRows := db.countRows id [.failed], skippedRows := db.countRows id [.skipped, .canceled]
        state := if db.countRows id [.pending] ≠ 0 then current.state
          else if 0 < db.countRows id [.failed] then .completedWithErrors else .completed
        updatedAt := max current.updatedAt at_, revision := current.revision + 1 } }

def completeOnboardingImportCommand (db : Database D) (c : CommandIdempotency A) (value : V)
    (resolve : Option (V → Except Fault OnboardingImportCommandResult)) (now : Instant) :
    Except Fault (Database D) :=
  if c.onboardingImportID.isEmpty then .ok db
  else match resolve with
    | none => .error (.invalidInput "onboarding_import_row" "outcome")
    | some resolve => do
      let outcome ← resolve value
      if (outcome.status != .succeeded && outcome.status != .noOp) ||
          (outcome.status == .succeeded && !isValidOpaqueID outcome.invitationID &&
            !isValidOpaqueID outcome.resourceID) then
        .error (.invalidInput "onboarding_import_row" "outcome")
      else match db.importRows.find (c.onboardingImportID, c.onboardingImportRowNumber) with
        | none => .error (.notFound "onboarding_import_row" "id")
        | some current =>
          if current.status != .pending then
            if current.status == outcome.status && current.invitationID == outcome.invitationID &&
                current.resultRef == outcome.resourceID then
              .ok db
            else .error (.conflict "onboarding_import_row" "row_changed")
          else
            refreshOnboardingImportCounts { db with importRows := db.importRows.set { current with
              status := outcome.status, publicCode := [], invitationID := outcome.invitationID,
              resultRef := outcome.resourceID, updatedAt := max current.updatedAt now } }
              c.onboardingImportID now

def hydrate (m : IdempotentMutation D A V) (d : D) (value : V) : Except Fault (V × D) :=
  match m.hydrateReplay with
  | none => .ok (value, d)
  | some callback => callback d value

def decodeRecorded (m : IdempotentMutation D A V) (outcome : Bytes) (field : String) : Except Fault V :=
  match m.decode outcome with
  | .ok value => .ok value
  | .error _ => .error (.invalidPersistedState "command_outcome" field)

def completeDuplicateAudit (server : Server D A) (m : IdempotentMutation D A V) (d : D) (value : V)
    (original : Text) : Except Fault D :=
  match m.completeDuplicate with
  | some callback => callback d value original
  | none => server.completeBatchDuplicateAudit d m.auditEventID original

def completeReplayAudit (server : Server D A) (m : IdempotentMutation D A V) (row : CommandOutcomeRow)
    (d : D) (value : V) : Except Fault D :=
  if row.duplicateOfKeyDigest.isSome then
    completeDuplicateAudit server m d value (row.originalAuditID.getD [])
  else match m.completeReplay, row.originalAuditID with
    | some callback, some original => if m.auditEventID != original then callback d value original else .ok d
    | _, _ => .ok d

def replayRecordedOutcome (server : Server D A) (db : Database D) (m : IdempotentMutation D A V)
    (row : CommandOutcomeRow) (now : Instant) : Except Fault (IdempotentResult V × Database D) :=
  if row.fingerprint ≠ m.command.fingerprint then .error .idempotencyConflict
  else if row.batchGroupDigest ≠ m.command.batch.map (·.groupDigest) then .error .idempotencyConflict
  else do
    let recorded ← decodeRecorded m row.outcome "outcome"
    let hydrated ← hydrate m db.rest recorded
    let audited ← completeReplayAudit server m row hydrated.2 hydrated.1
    let completed ← completeOnboardingImportCommand { db with rest := audited } m.command hydrated.1
      m.onboardingOutcome now
    pure (⟨hydrated.1, .replayed⟩, completed)

def recordDuplicateBatchOutcome (server : Server D A) (db : Database D) (m : IdempotentMutation D A V)
    (batch : CommandBatch) (now : Instant) : Except Fault (IdempotentResult V × Database D) :=
  match db.outcomes.find { m.command.key with keyDigest := batch.duplicateOfKeyDigest } with
  | none => .error (.conflict "command_outcome" "batch_canonical_missing")
  | some canonical =>
    if canonical.duplicateOfKeyDigest.isSome || canonical.batchGroupDigest != some batch.groupDigest then
      .error .idempotencyConflict
    else do
      let recorded ← decodeRecorded m canonical.outcome "canonical_outcome"
      let hydrated ← hydrate m db.rest recorded
      let audited ← completeDuplicateAudit server m hydrated.2 hydrated.1 []
      let inserted ← insertOutcome server { db with rest := audited }
        { key := m.command.key, fingerprint := m.command.fingerprint, outcome := canonical.outcome
          batchGroupDigest := some batch.groupDigest
          duplicateOfKeyDigest := some batch.duplicateOfKeyDigest
          originalAuditID := some m.auditEventID, createdAt := now
          expiresAt := now + retainedFor m.command.retention }
      pure (⟨hydrated.1, .duplicate⟩, inserted)

def originalAudit (m : IdempotentMutation D A V) (value : V) : Except Fault (Option Text) := do
  let id ← match m.freshAuditEventID with
    | none => pure m.auditEventID
    | some fresh => fresh value
  if id.isEmpty then .ok none
  else if isValidOpaqueID id then .ok (some id)
  else .error (.invalidInput "command_outcome" "audit_event_id")

def executeAndRecordOutcome (server : Server D A) (db : Database D) (m : IdempotentMutation D A V)
    (now : Instant) : Except Fault (IdempotentResult V × Database D) := do
  let executed ← m.execute db.rest
  let encoded ← m.encode executed.1
  if encoded.isEmpty || commandOutcomeMaxBytes < encoded.length || !server.jsonValid encoded then
    .error (.invalidInput "command_outcome" "outcome")
  else do
    let audit ← originalAudit m executed.1
    let inserted ← insertOutcome server { db with rest := executed.2 }
      { key := m.command.key, fingerprint := m.command.fingerprint, outcome := encoded
        batchGroupDigest := m.command.batch.map (·.groupDigest), duplicateOfKeyDigest := none
        originalAuditID := audit, createdAt := now
        expiresAt := now + retainedFor m.command.retention }
    let completed ← completeOnboardingImportCommand inserted m.command executed.1 m.onboardingOutcome now
    pure (⟨executed.1, .executed⟩, completed)

def runIdempotentMutationInTransaction (server : Server D A) (db : Database D)
    (m : IdempotentMutation D A V) (now : Instant) (inTime : Bool) :
    Except Fault (IdempotentResult V × Database D) := do
  lockIdempotentCommand server db m.command inTime
  match db.outcomes.find m.command.key, m.command.batch with
  | some row, _ => replayRecordedOutcome server db m row now
  | none, some batch =>
    if batch.duplicateOfKeyDigest != 0 then recordDuplicateBatchOutcome server db m batch now
    else executeAndRecordOutcome server db m now
  | none, none => executeAndRecordOutcome server db m now

def validMutation (server : Server D A) (m : IdempotentMutation D A V) : Bool :=
  isValidOpaqueID m.command.userID && !m.command.operation.isEmpty && 0 < m.command.retention &&
    0 < m.command.wait &&
    (isValidOpaqueID m.command.onboardingImportID == decide (0 < m.command.onboardingImportRowNumber)) &&
    m.command.authorization.all server.validCommandAuthorization &&
    validCommandBatch m.command.batch m.command.keyDigest &&
    (m.freshAuditEventID.isSome || (m.completeReplay.isSome && isValidOpaqueID m.auditEventID))

/-- The database's time at a transaction, whether the fence was free in time and whether the commit
went through. -/
structure Circumstances where
  now : Instant
  inTime : Bool
  commits : Bool

def runIdempotentMutation (server : Server D A) (db : Database D) (m : IdempotentMutation D A V)
    (at_ : Circumstances) : Except Fault (IdempotentResult V × Database D) :=
  if !validMutation server m then .error (.invalidInput "command_outcome" "mutation")
  else do
    let result ← runIdempotentMutationInTransaction server db m at_.now at_.inTime
    if !at_.commits then .error .database
    else pure result

/-- `Has`: whether the outcome is there, which is kept for longer then. -/
def has (db : Database D) (c : CommandIdempotency A) (at_ : Circumstances) :
    Except Fault (Bool × Database D) :=
  if !isValidOpaqueID c.userID || c.operation.isEmpty || c.keyDigest == 0 || c.retention ≤ 0 ||
      c.wait ≤ 0 then
    .error (.invalidInput "command_outcome" "lookup")
  else if !at_.inTime then .error .idempotencyInProgress
  else if !at_.commits then .error .database
  else match db.outcomes.find c.key with
    | none => .ok (false, db)
    | some row => .ok (true, { db with outcomes := db.outcomes.set { row with
        expiresAt := max row.expiresAt (at_.now + retainedFor c.retention) } })

def expiresBefore (a b : CommandOutcomeRow) : Bool :=
  decide (a.expiresAt < b.expiresAt) || a.expiresAt == b.expiresAt &&
    (decide (a.key.userID < b.key.userID) || a.key.userID == b.key.userID &&
      !decide (b.key.operation < a.key.operation))

/-- The rows that `DeleteExpired` selects: the first expired ones that no other transaction has
locked. -/
def selectExpired (db : Database D) (limit : Nat) (now : Instant) (locked : CommandKey → Bool) :
    List CommandOutcomeRow :=
  ((db.outcomes.rows.filter fun row => row.expiresAt ≤ now && !locked row.key).mergeSort
    expiresBefore).take limit

def deleteExpired (db : Database D) (limit : Int) (now : Instant) (locked : CommandKey → Bool) :
    Except Fault (Nat × Database D) :=
  if limit < 1 || 500 < limit then .error (.invalidInput "command_outcome" "limit")
  else
    let expired := selectExpired db limit.toNat now locked
    .ok (expired.length, { db with outcomes := db.outcomes.keep fun row => !expired.contains row })

end Proctor.Commands
