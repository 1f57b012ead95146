import Proctor.Values.Basic

/-! # Sessions and their credentials

A Session is one revocable login; its credentials are the hashed access and refresh tokens. The
validators name the first field they refuse. Instants are nanoseconds after the zero `Time`, before
which no clock reads. -/
namespace Proctor.Sessions

open Json

abbrev Instant := Nat

/-- `TimeUTC`: a whole number of microseconds. -/
def timeUTC (t : Instant) : Instant := t / 1000 * 1000

inductive SessionRevocationReason where
  | userLogout | userSession | userAllSessions | administratorSession | administratorAllSessions
  | accountDisabled | passwordRemoved | externalIdentityUnlinked | mfaReset | passwordReset
  | passwordChanged | emailChangeUndone | refreshReplay | inactiveUser | authenticationAuditFailed
  | desktopAuthorizationFailed | accessPolicyChanged | desktopRegistrationRevoked
  | examAttemptSessionLock | expired
  /-- Any other string. -/
  | unknown
  deriving DecidableEq, Repr

def SessionRevocationReason.isValid (r : SessionRevocationReason) : Bool := r != .unknown

def SessionRevocationReason.isSystemWithdrawal : SessionRevocationReason → Bool
  | .desktopAuthorizationFailed | .inactiveUser => true
  | _ => false

inductive SessionClientType where
  | desktop | cli | web | unknown
  deriving DecidableEq, Repr

inductive AuthenticationStrength where
  | singleFactor | multiFactor | unknown
  deriving DecidableEq, Repr

inductive SessionCredentialKind where
  | access | refresh | unknown
  deriving DecidableEq, Repr

structure Session where
  id : Text
  createdAt : Instant
  updatedAt : Instant
  archivedAt : Option Instant
  userID : Text
  authenticationGeneration : Int
  mfaRecoveryRequired : Bool
  clientType : SessionClientType
  desktopRegistrationID : Text
  dpopKeyThumbprint : Text
  desktopRelease : Text
  desktopBuildID : Text
  desktopPlatform : Text
  desktopArchitecture : Text
  desktopRealtimeProtocol : Int
  deviceID : Text
  deviceName : Text
  authenticationMethod : Text
  authenticationProviderID : Text
  externalIdentityID : Text
  authenticationStrength : AuthenticationStrength
  authenticatedAt : Instant
  reauthenticatedAt : Option Instant
  mfaCompletedAt : Option Instant
  lastActivityAt : Instant
  idleExpiresAt : Instant
  expiresAt : Instant
  revokedAt : Option Instant
  revocationReason : Option SessionRevocationReason
  deriving DecidableEq, Repr

structure SessionCredential where
  id : Text
  createdAt : Instant
  updatedAt : Instant
  archivedAt : Option Instant
  sessionID : Text
  kind : SessionCredentialKind
  tokenHash : Text
  familyID : Text
  parentID : Text
  replacedByID : Text
  expiresAt : Instant
  usedAt : Option Instant
  revokedAt : Option Instant
  deriving DecidableEq, Repr

/-- The text formats that the desktop client's fields keep to, and `SanitizeUnicode`. -/
structure Formats where
  isValidDPoPKeyThumbprint : Text → Bool
  isValidDesktopRelease : Text → Bool
  isValidDesktopBuildID : Text → Bool
  sanitizeUnicode : Text → Text

/-- A first character and then more of an alphabet: `^[a-z0-9][a-z0-9…]*$`. -/
def isNameOver (also : List Char) : Text → Bool
  | [] => false
  | c :: rest => letterOrDigit c && rest.all fun c => letterOrDigit c || also.contains c
where
  letterOrDigit (c : Char) : Bool := ('a' ≤ c && c ≤ 'z') || ('0' ≤ c && c ≤ '9')

/-- `validName`. -/
def isValidName : Text → Bool := isNameOver ['_', '-']

def isValidIdentityProviderID (value : Text) : Bool :=
  size value ≤ 64 && isNameOver ['.', '_', '-'] value

def refuse (refused : Bool) (field : String) (rest : Option String) : Option String :=
  if refused then some field else rest

theorem refuse_eq_none {refused : Bool} {field : String} {rest : Option String} :
    refuse refused field rest = none ↔ refused = false ∧ rest = none := by
  cases refused <;> simp [refuse]

namespace Session

/-- A Desktop Session needs its registration, any other must not have one. -/
def desktopRefused (f : Formats) (s : Session) : Bool :=
  if s.clientType == .desktop then
    !isValidOpaqueID s.desktopRegistrationID || !f.isValidDPoPKeyThumbprint s.dpopKeyThumbprint ||
      !f.isValidDesktopRelease s.desktopRelease || !f.isValidDesktopBuildID s.desktopBuildID ||
      !(["darwin", "win32", "linux"].contains (String.ofList s.desktopPlatform)) ||
      !(["arm64", "x64"].contains (String.ofList s.desktopArchitecture)) || s.desktopRealtimeProtocol < 1
  else
    !s.desktopRegistrationID.isEmpty || !s.dpopKeyThumbprint.isEmpty || !s.desktopRelease.isEmpty ||
      !s.desktopBuildID.isEmpty || !s.desktopPlatform.isEmpty || !s.desktopArchitecture.isEmpty ||
      s.desktopRealtimeProtocol != 0

/-- The first part of `Validate`. -/
def validateIdentity (f : Formats) (s : Session) : Option String :=
  refuse (!isValidOpaqueID s.id) "id" <|
  refuse (s.createdAt == 0 || s.updatedAt == 0) "created_at" <|
  refuse (s.updatedAt < s.createdAt) "updated_at" <|
  refuse (s.authenticationGeneration < 0 ||
    (s.mfaRecoveryRequired && (s.authenticationGeneration == 0 || s.clientType != .web)))
    "authentication_generation" <|
  refuse (!isValidOpaqueID s.userID) "user_id" <|
  refuse (s.clientType == .unknown) "client_type" <|
  refuse (s.desktopRefused f) "desktop_registration" <|
  refuse (128 < size s.deviceID) "device_id" <|
  refuse (128 < s.deviceName.length) "device_name" none

def validateAuthentication (s : Session) : Option String :=
  refuse (s.authenticationMethod.isEmpty || 64 < size s.authenticationMethod ||
    !isValidName s.authenticationMethod) "authentication_method" <|
  refuse (s.authenticationProviderID.isEmpty &&
    s.authenticationMethod != ['p', 'a', 's', 's', 'w', 'o', 'r', 'd']) "authentication_provider_id" <|
  refuse (!s.authenticationProviderID.isEmpty && !isValidIdentityProviderID s.authenticationProviderID)
    "authentication_provider_id" <|
  refuse (s.authenticationProviderID.isEmpty && !s.externalIdentityID.isEmpty) "external_identity_id" <|
  refuse (!s.authenticationProviderID.isEmpty && !isValidOpaqueID s.externalIdentityID)
    "external_identity_id" <|
  refuse (s.authenticationStrength == .unknown) "authentication_strength" <|
  refuse (s.authenticatedAt == 0 || s.createdAt < s.authenticatedAt) "authenticated_at" <|
  refuse (s.reauthenticatedAt.any fun t => t < s.authenticatedAt || s.updatedAt < t)
    "reauthenticated_at" <|
  refuse (s.authenticationStrength == .multiFactor && (s.mfaCompletedAt.isNone ||
    s.mfaCompletedAt.any fun t => t < s.authenticatedAt || s.updatedAt < t)) "mfa_completed_at" <|
  refuse (s.authenticationStrength == .singleFactor && s.mfaCompletedAt.isSome) "mfa_completed_at" none

def validateLifecycle (s : Session) : Option String :=
  refuse (s.lastActivityAt < s.createdAt) "last_activity_at" <|
  refuse (s.expiresAt ≤ s.createdAt) "expires_at" <|
  refuse (s.idleExpiresAt ≤ s.lastActivityAt || s.expiresAt < s.idleExpiresAt) "idle_expires_at" <|
  refuse (s.archivedAt.any fun t => t < s.createdAt) "archived_at" <|
  refuse (s.revokedAt.any fun t => t < s.createdAt) "revoked_at" <|
  refuse (s.revokedAt.isNone && s.revocationReason.isSome) "revocation_reason" <|
  refuse (s.revokedAt.isSome && !s.revocationReason.any (·.isValid)) "revocation_reason" none

/-- `Validate`: the field that is refused first. -/
def validate (f : Formats) (s : Session) : Option String :=
  (s.validateIdentity f).or (s.validateAuthentication.or s.validateLifecycle)

def prepareCreate (f : Formats) (s : Session) (id : Text) (at_ : Instant) : Session :=
  { s with
    id := id
    createdAt := timeUTC at_
    updatedAt := timeUTC at_
    archivedAt := none
    authenticatedAt := if s.authenticatedAt = 0 then timeUTC at_ else timeUTC s.authenticatedAt
    lastActivityAt := if s.lastActivityAt = 0 ∨ s.lastActivityAt < timeUTC at_ then timeUTC at_
      else timeUTC s.lastActivityAt
    idleExpiresAt := timeUTC s.idleExpiresAt
    expiresAt := timeUTC s.expiresAt
    mfaCompletedAt := s.mfaCompletedAt.map timeUTC
    reauthenticatedAt := s.reauthenticatedAt.map timeUTC
    revokedAt := s.revokedAt.map timeUTC
    deviceID := f.sanitizeUnicode s.deviceID
    deviceName := f.sanitizeUnicode s.deviceName
    authenticationMethod := f.sanitizeUnicode s.authenticationMethod
    authenticationProviderID := f.sanitizeUnicode s.authenticationProviderID }

def isExpiredAt (s : Session) (now : Instant) : Bool :=
  s.archivedAt.isSome || s.revokedAt.isSome || s.idleExpiresAt ≤ timeUTC now ||
    s.expiresAt ≤ timeUTC now

end Session

namespace SessionCredential

def validateRefreshRotation (c : SessionCredential) : Option String :=
  refuse (!isValidOpaqueID c.familyID) "family_id" <|
  refuse (!c.parentID.isEmpty && !isValidOpaqueID c.parentID) "parent_id" <|
  refuse (c.parentID == c.id) "parent_id" <|
  refuse (!c.replacedByID.isEmpty && !isValidOpaqueID c.replacedByID) "replaced_by_id" <|
  refuse (c.replacedByID == c.id) "replaced_by_id" <|
  refuse (!c.replacedByID.isEmpty && c.usedAt.isNone) "replaced_by_id" none

def validateRotation (c : SessionCredential) : Option String :=
  if c.kind == .access then
    refuse (!c.familyID.isEmpty || !c.parentID.isEmpty || !c.replacedByID.isEmpty || c.usedAt.isSome)
      "kind" none
  else c.validateRefreshRotation

/-- `Validate`: the field that is refused first. -/
def validate (c : SessionCredential) : Option String :=
  refuse (!isValidOpaqueID c.id) "id" <|
  refuse (c.createdAt == 0 || c.updatedAt == 0) "created_at" <|
  refuse (c.updatedAt < c.createdAt) "updated_at" <|
  refuse (!isValidOpaqueID c.sessionID) "session_id" <|
  refuse (c.kind == .unknown) "kind" <|
  refuse (!isValidTokenHash c.tokenHash) "token_hash" <|
  refuse (c.expiresAt ≤ c.createdAt) "expires_at" <|
  c.validateRotation.or <|
  refuse (c.usedAt.any fun t => t < c.createdAt || c.expiresAt ≤ t) "used_at" <|
  refuse (c.archivedAt.any fun t => t < c.createdAt) "archived_at" <|
  refuse (c.revokedAt.any fun t => t < c.createdAt) "revoked_at" none

/-- `PrepareCreate` with the identifiers that it would draw. -/
def prepareCreate (c : SessionCredential) (id family : Text) (at_ : Instant) : SessionCredential :=
  { c with
    id := id
    createdAt := timeUTC at_
    updatedAt := timeUTC at_
    archivedAt := none
    expiresAt := timeUTC c.expiresAt
    familyID := if c.kind = .refresh ∧ c.familyID = [] then family else c.familyID
    usedAt := c.usedAt.map timeUTC
    revokedAt := c.revokedAt.map timeUTC }

def isExpiredAt (c : SessionCredential) (now : Instant) : Bool :=
  c.archivedAt.isSome || c.revokedAt.isSome || c.expiresAt ≤ timeUTC now

end SessionCredential

end Proctor.Sessions
