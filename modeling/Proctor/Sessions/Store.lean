import Proctor.Keyed.Table
import Proctor.Sessions.Session

/-! # The Session store

The operations on the tables `sessions` and `session_credentials`, each one transaction under the
user's Session lock. An operation says whether the checks that read other tables (the authentication
method and its proof, the notice mail, the audit event) let it through; the recovery state of the
users is a parameter. The column checks of the two tables follow from the validators and are left
out. -/
namespace Proctor.Sessions

open Json Keyed

inductive Fault where
  | invalidInput (entity field : String)
  | invalidModel (entity field : String)
  | invalidPersistedState (entity field : String)
  | conflict (entity reason : String)
  | notFound (entity : String) (id : Text)
  | authenticationGenerationChanged
  /-- A check on another table, or a statement that the database refused. -/
  | refused
  deriving DecidableEq, Repr

structure Database where
  sessions : Table Session.id
  credentials : Table SessionCredential.id

def Database.empty : Database := ⟨.empty, .empty⟩

structure MFARecoveryState where
  generation : Int
  reenrollmentRequired : Bool
  deriving DecidableEq, Repr

structure Server where
  formats : Formats
  recovery : Text → MFARecoveryState

/-- `sessionRow.model`. -/
def readSession (f : Formats) (s : Session) : Except Fault Session :=
  match s.validate f with
  | none => .ok s
  | some field => .error (.invalidPersistedState "session" field)

/-- `sessionCredentialRow.model`. -/
def readCredential (c : SessionCredential) : Except Fault SessionCredential :=
  match c.validate with
  | none => .ok c
  | some field => .error (.invalidPersistedState "session_credential" field)

def prepared (c : SessionCredential) : Except Fault SessionCredential :=
  match c.validate with
  | none => .ok c
  | some field => .error (.invalidModel "session_credential" field)

def insertSession (db : Database) (s : Session) : Except Fault Database :=
  match db.sessions.insert s with
  | none => .error (.conflict "session" "id")
  | some sessions => .ok { db with sessions := sessions }

/-- The insertion of a credential: its token hash is new, and what it refers to is there. -/
def insertSessionCredential (db : Database) (c : SessionCredential) : Except Fault Database :=
  if db.credentials.rows.any (fun d => d.tokenHash == c.tokenHash) ||
      (db.sessions.find c.sessionID).isNone ||
      (!c.parentID.isEmpty && (db.credentials.find c.parentID).isNone) ||
      (!c.replacedByID.isEmpty && (db.credentials.find c.replacedByID).isNone) then
    .error .refused
  else match db.credentials.insert c with
    | none => .error (.conflict "session_credential" "id")
    | some credentials => .ok { db with credentials := credentials }

/-! ## Updates of the two tables -/

def revokedCredential (at_ : Instant) (c : SessionCredential) : SessionCredential :=
  { c with updatedAt := max c.updatedAt at_, revokedAt := some (max c.createdAt at_) }

def Database.revokeCredentials (db : Database) (selects : SessionCredential → Bool) (at_ : Instant) :
    Database :=
  { db with
    credentials := db.credentials.mapRows
      (fun c => if selects c && c.archivedAt.isNone && c.revokedAt.isNone then revokedCredential at_ c
        else c)
      fun c => by split <;> rfl }

def revokedSession (at_ : Instant) (reason : SessionRevocationReason) (s : Session) : Session :=
  { s with
    updatedAt := max s.updatedAt at_, revokedAt := some (max s.createdAt at_),
    revocationReason := some reason }

def Database.revokeSessions (db : Database) (selects : Session → Bool) (at_ : Instant)
    (reason : SessionRevocationReason) : Database :=
  { db with
    sessions := db.sessions.mapRows
      (fun s => if selects s && s.archivedAt.isNone && s.revokedAt.isNone then revokedSession at_ reason s
        else s)
      fun s => by split <;> rfl }

/-! ## Save -/

structure Drawn where
  id : Text
  family : Text
  deriving DecidableEq, Repr

def prepareInitialSessionCredentials (session : Session) (at_ : Instant) :
    List (SessionCredential × Drawn) → List SessionCredentialKind →
      Except Fault (List SessionCredential)
  | [], kinds =>
    if kinds.contains .access && kinds.contains .refresh then .ok []
    else .error (.invalidInput "session" "credentials")
  | (c, drawn) :: rest, kinds =>
    if !c.id.isEmpty then .error (.invalidInput "session_credential" "id")
    else do
      let candidate ← prepared
        ({ c with sessionID := session.id }.prepareCreate drawn.id drawn.family at_)
      if session.expiresAt < candidate.expiresAt then
        .error (.invalidInput "session_credential" "expires_at")
      else if kinds.contains candidate.kind then .error (.invalidInput "session_credential" "kind")
      else do
        let others ← prepareInitialSessionCredentials session at_ rest (candidate.kind :: kinds)
        pure (candidate :: others)

structure SessionCreation where
  session : Session
  credentials : List (SessionCredential × Drawn)
  maximumActive : Int
  sessionID : Text
  now : Instant
  permitted : Bool

def activeSessions (db : Database) (userID : Text) (at_ : Instant) : Nat :=
  (db.sessions.rows.filter fun s => s.userID == userID && s.archivedAt.isNone && s.revokedAt.isNone &&
    at_ < s.idleExpiresAt && at_ < s.expiresAt).length

def requireSessionAuthenticationGeneration (server : Server) (s : Session) : Except Fault Unit :=
  if s.authenticationGeneration ≠ (server.recovery s.userID).generation ∨
      s.mfaRecoveryRequired ≠ (server.recovery s.userID).reenrollmentRequired then
    .error .authenticationGenerationChanged
  else .ok ()

def save (server : Server) (db : Database) (input : SessionCreation) : Except Fault Database :=
  if !input.session.id.isEmpty then .error (.invalidInput "session" "id")
  else if input.maximumActive < 1 then .error (.invalidInput "session" "maximum_active")
  else
    let candidate := input.session.prepareCreate server.formats input.sessionID input.now
    match candidate.validate server.formats with
    | some field => .error (.invalidModel "session" field)
    | none =>
      if input.credentials.length ≠ 2 then .error (.invalidInput "session" "credentials")
      else do
        let credentials ← prepareInitialSessionCredentials candidate input.now input.credentials []
        if !input.permitted then .error .refused
        else do
          requireSessionAuthenticationGeneration server candidate
          if input.maximumActive ≤ activeSessions db candidate.userID candidate.createdAt then
            .error (.conflict "session" "sessions_maximum_per_user")
          else do
            let db ← insertSession db candidate
            credentials.foldlM insertSessionCredential db

/-! ## Revocation -/

def revokeOneUserSessionAt (db : Database) (id userID : Text) (at_ : Instant)
    (reason : SessionRevocationReason) : Except Fault Database :=
  match db.sessions.find id with
  | none => .error (.notFound "session" id)
  | some s =>
    if s.userID ≠ userID ∨ s.archivedAt.isSome ∨ s.revokedAt.isSome then .error (.notFound "session" id)
    else
      .ok ((db.revokeSessions (fun s => s.id == id && s.userID == userID) (timeUTC at_) reason).revokeCredentials
        (fun c => c.sessionID == id) (timeUTC at_))

structure SessionWithdrawal where
  id : Text
  userID : Text
  revokedAt : Instant
  reason : SessionRevocationReason

def withdraw (db : Database) (input : SessionWithdrawal) : Except Fault Database :=
  if !input.reason.isSystemWithdrawal then .error (.invalidInput "session" "revocation_reason")
  else revokeOneUserSessionAt db input.id input.userID input.revokedAt input.reason

structure SessionRevocation where
  id : Text
  userID : Text
  revokedAt : Instant
  reason : SessionRevocationReason
  permitted : Bool

/-- `Revoke`; the row that it read before is validated only after the revocation. -/
def revoke (server : Server) (db : Database) (input : SessionRevocation) : Except Fault Database :=
  if !isValidOpaqueID input.id || !isValidOpaqueID input.userID || input.revokedAt == 0 then
    .error (.invalidInput "session" "revocation")
  else if !input.reason.isValid then .error (.invalidInput "session" "revocation_reason")
  else if !input.permitted then .error .refused
  else match (db.sessions.find input.id).filter fun s =>
      s.userID == input.userID && s.archivedAt.isNone && s.revokedAt.isNone with
    | none => if input.reason = .userLogout then .ok db else .error (.notFound "session" input.id)
    | some row => do
      let revoked ← revokeOneUserSessionAt db input.id input.userID input.revokedAt input.reason
      let _ ← readSession server.formats row
      pure revoked

structure UserSessionsRevocation where
  userID : Text
  revokedAt : Instant
  reason : SessionRevocationReason
  permitted : Bool

/-- The Sessions that a revocation of all of a user's Sessions finds. -/
def Database.liveSessionsOf (db : Database) (userID : Text) : List Session :=
  db.sessions.rows.filter fun s => s.userID == userID && s.archivedAt.isNone && s.revokedAt.isNone

/-- `revokeUserSessionsExceptAt` without a Session to keep. -/
def revokeAllUserSessionsAt (db : Database) (userID : Text) (at_ : Instant)
    (reason : SessionRevocationReason) : Database :=
  let live := (db.liveSessionsOf userID).map (·.id)
  (db.revokeCredentials (fun c => live.contains c.sessionID) (timeUTC at_)).revokeSessions
    (fun s => s.userID == userID) (timeUTC at_) reason

def revokeAllForUser (server : Server) (db : Database) (input : UserSessionsRevocation) :
    Except Fault Database :=
  if !isValidOpaqueID input.userID || input.revokedAt == 0 then
    .error (.invalidInput "session" "user_revocation")
  else if !input.reason.isValid then .error (.invalidInput "session" "revocation_reason")
  else if !input.permitted then .error .refused
  else do
    let _ ← (db.liveSessionsOf input.userID).mapM (readSession server.formats)
    pure (revokeAllUserSessionsAt db input.userID input.revokedAt input.reason)

/-- `time.Unix(0, 0)`. -/
def unixEpoch : Instant := 62135596800000000000

structure SessionExpiryEnforcement where
  id : Text
  userID : Text
  now : Instant

def enforceExpiry (server : Server) (db : Database) (input : SessionExpiryEnforcement) :
    Except Fault Database :=
  if !isValidOpaqueID input.id || !isValidOpaqueID input.userID || timeUTC input.now ≤ unixEpoch then
    .error (.invalidInput "session" "expiry")
  else match (db.sessions.find input.id).filter fun s =>
      s.userID == input.userID && s.archivedAt.isNone && s.revokedAt.isNone with
    | none => .error (.notFound "session" input.id)
    | some row => do
      let session ← readSession server.formats row
      if !session.isExpiredAt input.now then pure db
      else revokeOneUserSessionAt db input.id input.userID input.now .expired

/-! ## Activity and assurance -/

structure SessionActivityUpdate where
  id : Text
  lastActivityAt : Instant
  idleExpiresAt : Instant

/-- The columns that `UpdateActivity` sets. -/
def activeSession (at_ idle : Instant) (s : Session) : Session :=
  { s with updatedAt := max s.updatedAt at_, lastActivityAt := at_, idleExpiresAt := min idle s.expiresAt }

def updateActivity (db : Database) (input : SessionActivityUpdate) : Except Fault Database :=
  match db.sessions.find input.id with
  | none => .error (.notFound "session" input.id)
  | some s =>
    if s.archivedAt.isSome ∨ s.revokedAt.isSome ∨ s.idleExpiresAt ≤ timeUTC input.lastActivityAt ∨
        s.expiresAt ≤ timeUTC input.lastActivityAt then
      .error (.notFound "session" input.id)
    else
      .ok { db with
        sessions := db.sessions.set
          (activeSession (timeUTC input.lastActivityAt) (timeUTC input.idleExpiresAt) s) }

structure SessionUpgrade where
  id : Text
  userID : Text
  now : Instant
  permitted : Bool

def upgradedSession (at_ : Instant) (s : Session) : Session :=
  { s with
    updatedAt := max s.updatedAt at_, authenticationStrength := .multiFactor,
    mfaCompletedAt := some (max s.authenticatedAt at_) }

def upgradeSessionAuthentication (server : Server) (db : Database) (input : SessionUpgrade) :
    Except Fault Database :=
  if !input.permitted then .error .refused
  else match db.sessions.find input.id with
    | none => .error (.notFound "session" input.id)
    | some s =>
      if s.userID ≠ input.userID ∨ s.archivedAt.isSome ∨ s.revokedAt.isSome ∨
          s.idleExpiresAt ≤ timeUTC input.now ∨ s.expiresAt ≤ timeUTC input.now then
        .error (.notFound "session" input.id)
      else do
        let upgraded ← readSession server.formats (upgradedSession (timeUTC input.now) s)
        pure { db with sessions := db.sessions.set upgraded }

/-! ## Rotation -/

structure SessionRefreshRotation where
  tokenHash : Text
  access : SessionCredential
  refresh : SessionCredential
  accessDrawn : Drawn
  refreshDrawn : Drawn
  now : Instant
  idleExpiresAt : Instant

inductive Rotation where
  | rotated | replayDetected | expired
  deriving DecidableEq, Repr

def Database.presented (db : Database) (tokenHash : Text) : Option SessionCredential :=
  db.credentials.rows.find? fun c => c.tokenHash == tokenHash && c.kind == .refresh && c.archivedAt.isNone

def lockRefreshCredentialSession (server : Server) (db : Database) (tokenHash : Text) :
    Except Fault (SessionCredential × Session) :=
  match db.presented tokenHash with
  | none => .error (.notFound "session_credential" tokenHash)
  | some row => match (db.sessions.find row.sessionID).filter (·.archivedAt.isNone) with
    | none => .error (.notFound "session_credential" tokenHash)
    | some owner => do
      let current ← readCredential row
      let session ← readSession server.formats owner
      pure (current, session)

def revokeReplayedSession (db : Database) (session : Session) (now : Instant) : Database :=
  (db.revokeCredentials (fun c => c.sessionID == session.id) now).revokeSessions
    (fun s => s.id == session.id) now .refreshReplay

def rotatedAccess (input : SessionRefreshRotation) (session : Session) (now : Instant) :
    SessionCredential :=
  { input.access with
    sessionID := session.id, kind := .access,
    expiresAt := min input.access.expiresAt session.expiresAt }.prepareCreate
      input.accessDrawn.id input.accessDrawn.family now

def rotatedRefresh (input : SessionRefreshRotation) (current : SessionCredential) (session : Session)
    (now : Instant) : SessionCredential :=
  { input.refresh with
    sessionID := session.id, kind := .refresh, familyID := current.familyID, parentID := current.id,
    expiresAt := min input.refresh.expiresAt session.expiresAt }.prepareCreate
      input.refreshDrawn.id input.refreshDrawn.family now

def usedCredential (now : Instant) (replacement : Text) (c : SessionCredential) : SessionCredential :=
  { c with
    updatedAt := max c.updatedAt now, usedAt := some (max c.createdAt now), replacedByID := replacement }

def Database.markUsed (db : Database) (id : Text) (now : Instant) (replacement : Text) : Database :=
  { db with
    credentials := db.credentials.mapRows
      (fun c => if c.id == id && c.usedAt.isNone && c.replacedByID.isEmpty then
          usedCredential now replacement c
        else c)
      fun c => by split <;> rfl }

def replaceRefreshCredential (db : Database) (session : Session) (current newAccess newRefresh :
    SessionCredential) (now : Instant) : Except Fault Database := do
  let revoked := db.revokeCredentials (fun c => c.sessionID == session.id && c.kind == .access) now
  let withAccess ← insertSessionCredential revoked newAccess
  let withRefresh ← insertSessionCredential withAccess newRefresh
  pure (withRefresh.markUsed current.id now newRefresh.id)

def touchRotatedSession (db : Database) (session : Session) (idle now : Instant) : Database :=
  { db with
    sessions := db.sessions.mapRows
      (fun s => if s.id == session.id && s.revokedAt.isNone then
          { s with
            updatedAt := max session.updatedAt now, lastActivityAt := now,
            idleExpiresAt := min idle session.expiresAt }
        else s)
      fun s => by split <;> rfl }

def rotateRefreshCredential (server : Server) (db : Database) (input : SessionRefreshRotation) :
    Except Fault (Database × Rotation) := do
  let now := timeUTC input.now
  let locked ← lockRefreshCredentialSession server db input.tokenHash
  let current := locked.1
  let session := locked.2
  requireSessionAuthenticationGeneration server session
  if current.usedAt.isSome || !current.replacedByID.isEmpty then
    pure (revokeReplayedSession db session now, .replayDetected)
  else if session.revokedAt.isSome then
    .error (.conflict "session_credential" "session_credentials_inactive")
  else if session.idleExpiresAt ≤ now || session.expiresAt ≤ now then do
    let revoked ← revokeOneUserSessionAt db session.id session.userID now .expired
    pure (revoked, .expired)
  else if current.isExpiredAt now then
    .error (.conflict "session_credential" "session_credentials_inactive")
  else do
    let newAccess ← prepared (rotatedAccess input session now)
    let newRefresh ← prepared (rotatedRefresh input current session now)
    let replaced ← replaceRefreshCredential db session current newAccess newRefresh now
    pure (touchRotatedSession replaced session (timeUTC input.idleExpiresAt) now, .rotated)

def rotateRefresh (server : Server) (db : Database) (input : SessionRefreshRotation) :
    Except Fault (Database × Rotation) :=
  if !input.access.id.isEmpty || !input.refresh.id.isEmpty then
    .error (.invalidInput "session_credential" "id")
  else rotateRefreshCredential server db input

/-! ## Purge -/

/-- `sessionRetiredAt`. -/
def Session.retiredAt (s : Session) : Instant :=
  match s.revokedAt with
  | none => min s.expiresAt s.idleExpiresAt
  | some t => min (min s.expiresAt s.idleExpiresAt) t

/-- `sessionCredentialRetiredAt`. -/
def SessionCredential.retiredAt (c : SessionCredential) : Instant :=
  match c.revokedAt with
  | none => c.expiresAt
  | some t => min c.expiresAt t

/-- `Grace.Milliseconds()` in nanoseconds. -/
def graceMillis (grace : Int) : Int := grace.tdiv 1000000 * 1000000

/-- Where a purge of the Sessions begins: after this retirement and identifier. -/
structure SessionPurge where
  grace : Int
  limit : Int
  after : Option (Instant × Text)
  now : Instant
  /-- Sessions and credentials that a record outside the two tables refers to, and rows that another
  transaction has locked. -/
  sessionReferenced : Text → Bool
  credentialReferenced : Text → Bool
  locked : Text → Bool

def retiredBefore (a b : Instant × Text) : Bool :=
  decide (a.1 < b.1) || a.1 == b.1 && !decide (b.2 < a.2)

def SessionPurge.examines (input : SessionPurge) (s : Session) : Bool :=
  decide ((s.retiredAt : Int) < input.now - graceMillis input.grace) &&
    !retiredBefore (s.retiredAt, s.id) (input.after.getD (unixEpoch, []))

def SessionPurge.examined (input : SessionPurge) (db : Database) : List Session :=
  ((db.sessions.rows.filter input.examines).mergeSort
    fun a b => retiredBefore (a.retiredAt, a.id) (b.retiredAt, b.id)).take input.limit.toNat

/-- `sessionUnreferenced`. -/
def SessionPurge.unreferenced (input : SessionPurge) (db : Database) (id : Text) : Bool :=
  let own := db.credentials.rows.filter fun c => c.sessionID == id
  !input.sessionReferenced id && own.all (fun c => !input.credentialReferenced c.id) &&
    own.all fun c => db.credentials.rows.all fun other =>
      other.sessionID == id || (other.parentID != c.id && other.replacedByID != c.id)

def SessionPurge.purgeable (input : SessionPurge) (db : Database) : List Text :=
  ((input.examined db).map (·.id)).filter fun id => input.unreferenced db id && !input.locked id

def purgeRetiredSessions (db : Database) (input : SessionPurge) : Except Fault Database :=
  if input.grace ≤ 0 || input.limit < 1 || 1000 < input.limit ||
      input.after.any (fun position => !isValidOpaqueID position.2) then
    .error (.invalidInput "session" "purge")
  else
    .ok ⟨db.sessions.keep fun s => !(input.purgeable db).contains s.id,
      db.credentials.keep fun c => !(input.purgeable db).contains c.sessionID⟩

structure SessionCredentialPurge where
  grace : Int
  limit : Int
  now : Instant
  referenced : Text → Bool
  locked : Text → Bool

def SessionCredentialPurge.selected (input : SessionCredentialPurge) (db : Database) : List Text :=
  (((db.credentials.rows.filter fun c =>
    decide ((c.retiredAt : Int) < input.now - graceMillis input.grace) && !input.referenced c.id &&
      !input.locked c.id).mergeSort
    fun a b => retiredBefore (a.retiredAt, a.id) (b.retiredAt, b.id)).take input.limit.toNat).map (·.id)

def unlinked (deleted : List Text) (link : Text) : Text := if deleted.contains link then [] else link

/-- Clear the lineage links of a surviving credential to deleted ones. -/
def detached (deleted : List Text) (now : Instant) (c : SessionCredential) : SessionCredential :=
  if deleted.contains c.parentID || deleted.contains c.replacedByID then
    { c with
      parentID := unlinked deleted c.parentID, replacedByID := unlinked deleted c.replacedByID,
      updatedAt := max c.updatedAt now }
  else c

def purgeRetiredCredentials (db : Database) (input : SessionCredentialPurge) : Except Fault Database :=
  if input.grace ≤ 0 || input.limit < 1 || 1000 < input.limit then
    .error (.invalidInput "session_credential" "purge")
  else
    let deleted := input.selected db
    .ok { db with
      credentials := (db.credentials.keep fun c => !deleted.contains c.id).mapRows
        (detached deleted input.now) fun c => by unfold detached; split <;> rfl }

/-! ## One operation -/

inductive Operation where
  | save (input : SessionCreation)
  | rotateRefresh (input : SessionRefreshRotation)
  | withdraw (input : SessionWithdrawal)
  | revoke (input : SessionRevocation)
  | revokeAllForUser (input : UserSessionsRevocation)
  | enforceExpiry (input : SessionExpiryEnforcement)
  | updateActivity (input : SessionActivityUpdate)
  | upgrade (input : SessionUpgrade)
  | purgeSessions (input : SessionPurge)
  | purgeCredentials (input : SessionCredentialPurge)

def Operation.perform (server : Server) (db : Database) : Operation → Except Fault Database
  | .save input => Proctor.Sessions.save server db input
  | .rotateRefresh input => (Proctor.Sessions.rotateRefresh server db input).map (·.1)
  | .withdraw input => Proctor.Sessions.withdraw db input
  | .revoke input => Proctor.Sessions.revoke server db input
  | .revokeAllForUser input => Proctor.Sessions.revokeAllForUser server db input
  | .enforceExpiry input => Proctor.Sessions.enforceExpiry server db input
  | .updateActivity input => Proctor.Sessions.updateActivity db input
  | .upgrade input => upgradeSessionAuthentication server db input
  | .purgeSessions input => purgeRetiredSessions db input
  | .purgeCredentials input => purgeRetiredCredentials db input

def step (server : Server) (db : Database) (op : Operation) : Database :=
  match op.perform server db with
  | .ok db' => db'
  | .error _ => db

end Proctor.Sessions
