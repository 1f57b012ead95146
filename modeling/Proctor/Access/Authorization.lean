import Proctor.Access.Directory

/-! # Authorization decisions and authorized scopes

`Can` decides one resource; `authorizedScopes` answers the same authority as a constraint for a
listing. Both read the user's active role bindings and the permissions of their roles. A listing's
sorted identifier lists without duplicates are sets here. -/
namespace Proctor.Access

open Fallible Hierarchy

inductive CredentialType where
  | sessionAccess | personalAccessToken
  /-- Any other string. -/
  | unknown
  deriving DecidableEq, Repr

structure Principal (ι : Type) where
  userID : ι
  /-- The checks of `Principal.Validate` on the fields that authorization does not read. -/
  identityValid : Bool
  credentialType : CredentialType
  credentialScopes : List Action
  academicUnitID : Option ι

def Principal.validate {ι : Type} (p : Principal ι) : Bool :=
  p.identityValid && match p.credentialType with
    | .sessionAccess => p.credentialScopes.isEmpty && p.academicUnitID.isNone
    | .personalAccessToken => !p.credentialScopes.isEmpty &&
        p.credentialScopes.all isPersonalAccessTokenAction && decide p.credentialScopes.Nodup
    | .unknown => false

inductive RoleScopeType where
  | institution | academicUnit | academicClass
  deriving DecidableEq, Repr

structure RoleBinding (ι : Type) where
  userID : ι
  roleID : ι
  scopeType : RoleScopeType
  scopeID : ι
  startsAt : Int
  endsAt : Option Int
  archived : Bool
  deriving DecidableEq

/-- The stored role bindings, in the order they are listed, and the permissions of each unarchived
role. -/
structure Grants (ι : Type) where
  bindings : List (RoleBinding ι)
  permissions : ι → Option (List Action)

/-- `authorizedScopeConstraint`. -/
structure ScopeConstraint (ι : Type) where
  institutionID : Option ι := none
  institutionWide : Bool := false
  academicUnitRootIDs : Finset ι := ∅
  classIDs : Finset ι := ∅

section
variable {ι : Type} [DecidableEq ι]

def Grants.listActiveByUser (g : Grants ι) (user : ι) (now : Int) : List (RoleBinding ι) :=
  g.bindings.filter fun b => b.userID = user && !b.archived && b.startsAt ≤ now &&
    match b.endsAt with
    | none => true
    | some endsAt => now < endsAt

def Grants.grants (g : Grants ι) (action : Action) (b : RoleBinding ι) : Bool :=
  match g.permissions b.roleID with
  | none => false
  | some permissions => permissions.contains action

def accumulateBindingScope (d : Directory ι) (principal : Principal ι) (definition : ActionDefinition)
    (constraint : ScopeConstraint ι) (b : RoleBinding ι) : Except AccessError (ScopeConstraint ι) :=
  match b.scopeType with
  | .institution =>
    if !definition.inheritInstitutionScope then .ok constraint
    else do
      let resolved ← d.resolve ⟨.institution, b.scopeID⟩
      match principal.academicUnitID with
      | none => .ok { constraint with institutionID := resolved.institutionID, institutionWide := true }
      | some ceiling => .ok { constraint with
          institutionID := resolved.institutionID
          academicUnitRootIDs := insert ceiling constraint.academicUnitRootIDs }
  | .academicUnit =>
    if !definition.inheritAcademicUnitScopes then .ok constraint
    else do
      let resolved ← d.resolve ⟨.academicUnit, b.scopeID⟩
      if principal.academicUnitID.all resolved.academicUnitIDs.contains then
        .ok { constraint with
          institutionID := resolved.institutionID
          academicUnitRootIDs := insert b.scopeID constraint.academicUnitRootIDs }
      else .ok constraint
  | .academicClass =>
    if !definition.acceptsResource .academicClass then .ok constraint
    else do
      let resolved ← d.resolve ⟨.academicClass, b.scopeID⟩
      if principal.academicUnitID.all resolved.academicUnitIDs.contains then
        .ok { constraint with
          institutionID := resolved.institutionID
          classIDs := insert b.scopeID constraint.classIDs }
      else .ok constraint

def tokenWithholds (principal : Principal ι) (action : Action) (definition : ActionDefinition) : Bool :=
  principal.credentialType == .personalAccessToken &&
    (definition.personalAccessTokenForbidden || !principal.credentialScopes.contains action)

def authorizedScopesAt (d : Directory ι) (g : Grants ι) (principal : Principal ι) (action : Action)
    (resourceType : ResourceType) (now : Int) : Except AccessError (ScopeConstraint ι) :=
  if !principal.validate then .error .invalidToken
  else match definitionForAction action with
    | none => .error .requestInvalid
    | some definition =>
      if !definition.acceptsResource resourceType then .error .requestInvalid
      else if tokenWithholds principal action definition then .ok {}
      else if 256 < (g.listActiveByUser principal.userID now).length then .error .unavailable
      else ((g.listActiveByUser principal.userID now).filter (g.grants action)).foldlM
        (accumulateBindingScope d principal definition) {}

def personalAccessTokenAllows (principal : Principal ι) (action : Action) (resource : Resource ι)
    (resolved : ResolvedResource ι) : Bool :=
  principal.credentialScopes.contains action && match principal.academicUnitID with
    | none => true
    | some ceiling => match resource.type with
      | .academicUnit | .programme | .programmeLevel | .academicClass | .exam =>
        resolved.academicUnitIDs.contains ceiling
      | .academicPeriod =>
        if resolved.academicPeriodInstitutionOwned then action == .academicPeriodView
        else resolved.academicUnitIDs.contains ceiling
      | .institution | .user | .examSitting | .submission | .mailDelivery => false

/-- `roleBindingApplies`; the definition is that of the action. -/
def roleBindingApplies (b : RoleBinding ι) (action : Action) (definition : ActionDefinition)
    (resource : Resource ι) (resolved : ResolvedResource ι) : Bool :=
  match b.scopeType with
  | .institution => definition.inheritInstitutionScope && some b.scopeID = resolved.institutionID
  | .academicUnit =>
    if !definition.inheritAcademicUnitScopes then false
    else if resource.type = .academicPeriod && resolved.academicPeriodInstitutionOwned then
      action == .academicPeriodView
    else resolved.academicUnitIDs.contains b.scopeID
  | .academicClass => resource.type = .academicClass && some b.scopeID = resolved.classID

def evaluateResolved (g : Grants ι) (principal : Principal ι) (action : Action) (resource : Resource ι)
    (definition : ActionDefinition) (resolved : ResolvedResource ι) (now : Int) : Bool :=
  if principal.credentialType == .personalAccessToken &&
      !personalAccessTokenAllows principal action resource resolved then false
  else if (action == .userView || action == .userProfilePictureManage) && principal.userID = resource.id then
    true
  else (g.listActiveByUser principal.userID now).any fun b =>
    roleBindingApplies b action definition resource resolved && g.grants action b

def academicPeriodCoarseAuthority (d : Directory ι) (g : Grants ι) (principal : Principal ι)
    (action : Action) (now : Int) : Except AccessError Bool := do
  let constraint ← authorizedScopesAt d g principal action .academicPeriod now
  if constraint.institutionWide || decide constraint.academicUnitRootIDs.Nonempty then .ok true
  else match d.institution with
    | none => .error (.notFound "institution")
    | some _ => .ok false

/-- What the coarse check leaves to decide: everything but an Academic Period without authority. -/
def coarseAuthority (d : Directory ι) (g : Grants ι) (principal : Principal ι) (action : Action)
    (resource : Resource ι) (now : Int) : Except AccessError Bool :=
  if resource.type = .academicPeriod then academicPeriodCoarseAuthority d g principal action now
  else .ok true

def can (d : Directory ι) (g : Grants ι) (principal : Principal ι) (action : Action)
    (resource : Resource ι) (now : Int) : Except AccessError Bool :=
  if !principal.validate then .error .invalidToken
  else match definitionForAction action with
    | none => .error .requestInvalid
    | some definition =>
      if !definition.acceptsResource resource.type then .error .requestInvalid
      else if definition.relationshipOnly then .error .requestInvalid
      else if principal.credentialType == .personalAccessToken &&
          definition.personalAccessTokenForbidden then .ok false
      else do
        let coarse ← coarseAuthority d g principal action resource now
        if !coarse then .ok false
        else do
          let resolved ← d.resolve resource
          .ok (evaluateResolved g principal action resource definition resolved now)

end

end Proctor.Access
