import Proctor.Access.Authorization

/-! # Listings against decisions

What a constraint for a listing contains, against what the decision on each resource allows; and
what role bindings whose scope is gone do to either. -/
namespace Proctor.Access

open Fallible Hierarchy List Directory
open Bool (and_eq_true false_eq_true not_eq_true')
open Option (some)

variable {ι : Type} [DecidableEq ι] {d : Directory ι} {g : Grants ι} {principal : Principal ι}
  {action : Action} {definition : ActionDefinition}

/-- The active role bindings of the principal whose role carries the action. -/
def Grants.granting (g : Grants ι) (principal : Principal ι) (action : Action) (now : Int) :
    List (RoleBinding ι) :=
  (g.listActiveByUser principal.userID now).filter (g.grants action)

def ScopeConstraint.Contains (c : ScopeConstraint ι) (resource : Resource ι)
    (resolved : ResolvedResource ι) : Prop :=
  c.institutionWide = true ∨ (∃ root ∈ c.academicUnitRootIDs, root ∈ resolved.academicUnitIDs) ∨
    (resource.type = .academicClass ∧ resource.id ∈ c.classIDs)

/-- `roleScopeResource`; every identifier is a valid one here. -/
abbrev roleScopeResource (scopeType : RoleScopeType) (scopeID : ι) : Resource ι where
  type := match scopeType with
    | .institution => .institution
    | .academicUnit => .academicUnit
    | .academicClass => .academicClass
  id := scopeID

omit [DecidableEq ι] in
theorem roleScopeResource_class {resource : Resource ι} (h : resource.type = .academicClass) :
    roleScopeResource .academicClass resource.id = resource := by
  rw [roleScopeResource, ← h]

def RoleBinding.scope (b : RoleBinding ι) : Resource ι := roleScopeResource b.scopeType b.scopeID

/-- `SupportsRoleScope`: a binding of this scope can grant the action. -/
def ActionDefinition.supportsRoleScope (definition : ActionDefinition) : RoleScopeType → Bool
  | .institution => definition.inheritInstitutionScope
  | .academicUnit => definition.inheritAcademicUnitScopes
  | .academicClass => definition.acceptsResource .academicClass

/-! ### What a listing collects -/

def Widens (principal : Principal ι) (definition : ActionDefinition) (b : RoleBinding ι) : Prop :=
  b.scopeType = .institution ∧ definition.inheritInstitutionScope = true ∧ principal.academicUnitID = none

def AddsRoot (d : Directory ι) (principal : Principal ι) (definition : ActionDefinition)
    (b : RoleBinding ι) (root : ι) : Prop :=
  (b.scopeType = .institution ∧ definition.inheritInstitutionScope = true ∧
    principal.academicUnitID = some root) ∨
  (b.scopeType = .academicUnit ∧ definition.inheritAcademicUnitScopes = true ∧ root = b.scopeID ∧
    ∀ ceiling, principal.academicUnitID = some ceiling → ceiling ∈ d.liveUnits.chain b.scopeID)

def AddsClass (d : Directory ι) (principal : Principal ι) (definition : ActionDefinition)
    (b : RoleBinding ι) (id : ι) : Prop :=
  b.scopeType = .academicClass ∧ definition.acceptsResource .academicClass = true ∧ id = b.scopeID ∧
    ∀ ceiling, principal.academicUnitID = some ceiling →
      ∃ resolved, d.resolve b.scope = .ok resolved ∧ ceiling ∈ resolved.academicUnitIDs

theorem all_contains_iff {unit : Option ι} {ids : List ι} :
    unit.all ids.contains ↔ ∀ ceiling, unit = some ceiling → ceiling ∈ ids := by
  cases unit with
  | none => simp
  | some ceiling => simp

variable {b : RoleBinding ι} {c start : ScopeConstraint ι}

theorem accumulateBindingScope_of_unsupported (c : ScopeConstraint ι)
    (h : definition.supportsRoleScope b.scopeType = false) :
    accumulateBindingScope d principal definition c b = .ok c := by
  unfold accumulateBindingScope
  cases hScope : b.scopeType with
  | institution | academicUnit | academicClass =>
    rw [hScope] at h
    exact if_pos (congrArg (!·) h)

theorem accumulateBindingScope_ok (h : accumulateBindingScope d principal definition start b = .ok c) :
    (definition.supportsRoleScope b.scopeType → ∃ resolved, d.resolve b.scope = .ok resolved) ∧
      (c.institutionWide ↔ start.institutionWide = true ∨ Widens principal definition b) ∧
      (∀ root, root ∈ c.academicUnitRootIDs ↔
        root ∈ start.academicUnitRootIDs ∨ AddsRoot d principal definition b root) ∧
      (∀ id, id ∈ c.classIDs ↔ id ∈ start.classIDs ∨ AddsClass d principal definition b id) := by
  cases hSupp : definition.supportsRoleScope b.scopeType with
  | false =>
    rw [accumulateBindingScope_of_unsupported start hSupp] at h
    cases h
    cases hScope : b.scopeType with
    | institution | academicUnit | academicClass =>
      rw [hScope, ActionDefinition.supportsRoleScope] at hSupp
      simp [Widens, AddsRoot, AddsClass, hScope, hSupp]
  | true =>
    unfold accumulateBindingScope at h
    cases hScope : b.scopeType with
    | institution =>
      rw [hScope, ActionDefinition.supportsRoleScope] at hSupp
      simp only [hScope, hSupp, Bool.not_true, false_eq_true, if_false] at h
      obtain ⟨resolved, hRes, h⟩ := bind_ok h
      refine ⟨fun _ => ⟨resolved, by rw [← hRes, RoleBinding.scope, hScope]⟩, ?_⟩
      cases hUnit : principal.academicUnitID with
      | none =>
        simp only [hUnit] at h
        cases h
        simp [Widens, AddsRoot, AddsClass, hScope, hSupp, hUnit]
      | some ceiling =>
        simp only [hUnit] at h
        cases h
        simp [Widens, AddsRoot, AddsClass, hScope, hSupp, hUnit, or_comm, @eq_comm _ ceiling]
    | academicUnit =>
      rw [hScope, ActionDefinition.supportsRoleScope] at hSupp
      simp only [hScope, hSupp, Bool.not_true, false_eq_true, if_false] at h
      obtain ⟨resolved, hRes, h⟩ := bind_ok h
      refine ⟨fun _ => ⟨resolved, by rw [← hRes, RoleBinding.scope, hScope]⟩, ?_⟩
      obtain ⟨-, rfl⟩ := resolveAcademicUnitScope_ok hRes
      split at h
      all_goals
        rename_i hWithin
        simp only [all_contains_iff] at hWithin
        cases h
        simp +contextual [Widens, AddsRoot, AddsClass, hScope, hSupp, hWithin, or_comm]
    | academicClass =>
      rw [hScope, ActionDefinition.supportsRoleScope] at hSupp
      simp only [hScope, hSupp, Bool.not_true, false_eq_true, if_false] at h
      obtain ⟨resolved, hRes, h⟩ := bind_ok h
      have hResolved : d.resolve b.scope = .ok resolved := by rw [← hRes, RoleBinding.scope, hScope]
      refine ⟨fun _ => ⟨resolved, hResolved⟩, ?_⟩
      split at h
      all_goals
        rename_i hWithin
        rw [all_contains_iff] at hWithin
        cases h
        simp +contextual [Widens, AddsRoot, AddsClass, hScope, hSupp, hResolved, hWithin, or_comm]

theorem foldlM_accumulate_ok {bindings : List (RoleBinding ι)}
    (h : bindings.foldlM (accumulateBindingScope d principal definition) start = .ok c) :
    (∀ b ∈ bindings, definition.supportsRoleScope b.scopeType →
      ∃ resolved, d.resolve b.scope = .ok resolved) ∧ (c.institutionWide ↔
      start.institutionWide = true ∨ ∃ b ∈ bindings, Widens principal definition b) ∧
    (∀ root, root ∈ c.academicUnitRootIDs ↔
      root ∈ start.academicUnitRootIDs ∨ ∃ b ∈ bindings, AddsRoot d principal definition b root) ∧
    (∀ id, id ∈ c.classIDs ↔
      id ∈ start.classIDs ∨ ∃ b ∈ bindings, AddsClass d principal definition b id) := by
  induction bindings generalizing start with
  | nil =>
    obtain rfl := pure_ok h
    simp
  | cons b rest ih =>
    obtain ⟨next, hNext, hRest⟩ := bind_ok h
    obtain ⟨hRes, hWide, hRoots, hClasses⟩ := accumulateBindingScope_ok hNext
    obtain ⟨hResolvesRest, hWideRest, hRootsRest, hClassesRest⟩ := ih hRest
    refine ⟨?_, ?_, fun root => ?_, fun id => ?_⟩
    · intro x hx
      obtain rfl | hx := mem_cons.mp hx
      · exact hRes
      · exact hResolvesRest x hx
    · rw [hWideRest, hWide, or_assoc, exists_mem_cons_iff]
    · rw [hRootsRest, hRoots, or_assoc, exists_mem_cons_iff]
    · rw [hClassesRest, hClasses, or_assoc, exists_mem_cons_iff]

theorem authorizedScopesAt_ok {t : ResourceType} {now : Int}
    (hDef : definitionForAction action = some definition)
    (h : authorizedScopesAt d g principal action t now = .ok c) :
    principal.validate ∧ definition.acceptsResource t ∧
      if tokenWithholds principal action definition then c = {}
      else (g.listActiveByUser principal.userID now).length ≤ 256 ∧
        (g.granting principal action now).foldlM (accumulateBindingScope d principal definition) {} = .ok c := by
  obtain ⟨hValid, h⟩ := guard_ok h
  simp only [hDef] at h
  obtain ⟨hAcc, h⟩ := guard_ok h
  refine ⟨by simpa using hValid, by simpa using hAcc, ?_⟩
  split
  · next hWithholds =>
    rw [if_pos hWithholds] at h
    exact (Except.ok.inj h).symm
  · next hCarries =>
    rw [if_neg hCarries] at h
    obtain ⟨hBound, h⟩ := guard_ok h
    exact ⟨Nat.le_of_not_lt hBound, h⟩

/-! ### Against the decision on one resource -/

/-- The token's unit, if it has one, is the resource's unit or an ancestor of it. -/
def WithinCeiling (principal : Principal ι) (resolved : ResolvedResource ι) : Prop :=
  ∀ ceiling, principal.academicUnitID = some ceiling → ceiling ∈ resolved.academicUnitIDs

/-- The decision counts the binding: the token reaches the resource and the binding applies. -/
def Decides (principal : Principal ι) (action : Action) (definition : ActionDefinition)
    (resource : Resource ι) (resolved : ResolvedResource ι) (b : RoleBinding ι) : Prop :=
  WithinCeiling principal resolved ∧ roleBindingApplies b action definition resource resolved = true

def Lists (d : Directory ι) (principal : Principal ι) (definition : ActionDefinition)
    (resource : Resource ι) (resolved : ResolvedResource ι) (b : RoleBinding ι) : Prop :=
  Widens principal definition b ∨
  (∃ root ∈ resolved.academicUnitIDs, AddsRoot d principal definition b root) ∨
  (resource.type = .academicClass ∧ AddsClass d principal definition b resource.id)

/-- The binding lies above the token's unit, and that unit above the resource. -/
def Overlooked (d : Directory ι) (principal : Principal ι) (definition : ActionDefinition)
    (resolved : ResolvedResource ι) (b : RoleBinding ι) : Prop :=
  b.scopeType = .academicUnit ∧ definition.inheritAcademicUnitScopes = true ∧
    b.scopeID ∈ resolved.academicUnitIDs ∧
    ∃ ceiling, principal.academicUnitID = some ceiling ∧ ceiling ∈ resolved.academicUnitIDs ∧
      ceiling ∉ d.liveUnits.chain b.scopeID

section
variable {resource : Resource ι} {resolved : ResolvedResource ι}

theorem decides_institution (hRes : d.resolve resource = .ok resolved) (hScope : b.scopeType = .institution)
    (hResolves : definition.inheritInstitutionScope → ∃ r, d.resolve b.scope = .ok r) :
    Decides principal action definition resource resolved b ↔
      Lists d principal definition resource resolved b := by
  have hApp : roleBindingApplies b action definition resource resolved ↔
      definition.inheritInstitutionScope := by
    simp only [roleBindingApplies, hScope, and_eq_true, decide_eq_true_eq]
    refine ⟨And.left, fun hInh => ⟨hInh, ?_⟩⟩
    obtain ⟨r, hr⟩ := hResolves hInh
    rw [RoleBinding.scope, hScope] at hr
    have hSame : d.institution = some b.scopeID := by
      simp only [resolve, resolveInstitution] at hr
      split at hr
      · assumption
      · cases hr
    exact (resolve_institutionID hSame hRes).symm
  unfold Decides WithinCeiling Lists Widens AddsRoot AddsClass
  rw [hApp, hScope]
  cases principal.academicUnitID with
  | none => simp
  | some ceiling =>
    simp only [some.injEq, forall_eq', true_and, reduceCtorEq, and_false, false_and, or_false,
      false_or]
    constructor
    · rintro ⟨hIn, hInh⟩
      exact ⟨ceiling, hIn, hInh, rfl⟩
    · rintro ⟨_, hIn, hInh, hSame⟩
      exact ⟨hSame ▸ hIn, hInh⟩

theorem decides_academicUnit (hOwned : resource.type.unitOwned)
    (hRes : d.resolve resource = .ok resolved) (hScope : b.scopeType = .academicUnit) :
    Decides principal action definition resource resolved b ↔
      Lists d principal definition resource resolved b ∨
        Overlooked d principal definition resolved b := by
  obtain ⟨unit, -, hUnits, -, -, hPeriod⟩ := resolve_unitOwned hOwned hRes
  have hApp : roleBindingApplies b action definition resource resolved ↔
      definition.inheritAcademicUnitScopes ∧ b.scopeID ∈ resolved.academicUnitIDs := by
    simp only [roleBindingApplies, hScope, hPeriod, Bool.and_false, false_eq_true, if_false]
    cases definition.inheritAcademicUnitScopes <;> simp
  unfold Decides WithinCeiling Lists Widens AddsRoot AddsClass Overlooked
  rw [hApp, hScope]
  simp only [reduceCtorEq, false_and, and_false, false_or, or_false, true_and]
  cases hCeil : principal.academicUnitID with
  | none =>
    simp only [reduceCtorEq, false_imp_iff, implies_true, true_and, and_true, false_and, exists_false,
      and_false, or_false]
    exact ⟨fun ⟨hInh, hIn⟩ => ⟨_, hIn, hInh, rfl⟩,
      fun ⟨_, hIn, hInh, hSame⟩ => ⟨hInh, hSame ▸ hIn⟩⟩
  | some ceiling =>
    simp only [some.injEq, forall_eq', exists_eq_left']
    constructor
    · rintro ⟨hReach, hInh, hIn⟩
      by_cases hWithin : ceiling ∈ d.liveUnits.chain b.scopeID
      · exact .inl ⟨_, hIn, hInh, rfl, hWithin⟩
      · exact .inr ⟨hInh, hIn, hReach, hWithin⟩
    · rintro (⟨_, hIn, hInh, rfl, hWithin⟩ | ⟨hInh, hIn, hReach, -⟩)
      · refine ⟨?_, hInh, hIn⟩
        rw [hUnits] at hIn ⊢
        exact Forest.mem_chain_trans hWithin hIn
      · exact ⟨hReach, hInh, hIn⟩

section

variable (hOwned : resource.type.unitOwned) (hAcc : definition.acceptsResource resource.type)
  (hRes : d.resolve resource = .ok resolved)
include hOwned hAcc hRes

theorem decides_class (hScope : b.scopeType = .academicClass) :
    Decides principal action definition resource resolved b ↔
      Lists d principal definition resource resolved b := by
  obtain ⟨unit, -, -, -, hClass, -⟩ := resolve_unitOwned hOwned hRes
  unfold Decides WithinCeiling Lists Widens AddsRoot AddsClass
  simp only [roleBindingApplies, hScope, hClass, reduceCtorEq, false_and, false_or, and_false,
    exists_false, and_eq_true, decide_eq_true_eq, true_and]
  by_cases hType : resource.type = .academicClass
  · simp only [hType, if_true, some.injEq, true_and]
    rw [hType] at hAcc
    have hSelf : b.scopeID = resource.id → d.resolve b.scope = .ok resolved := by
      intro hSame
      rw [← hRes, RoleBinding.scope, hScope, hSame, roleScopeResource_class hType]
    constructor
    · rintro ⟨hReach, hSame⟩
      exact ⟨hAcc, hSame.symm, fun ceiling hCeil => ⟨resolved, hSelf hSame, hReach ceiling hCeil⟩⟩
    rintro ⟨-, hSame, hReach⟩
    refine ⟨fun ceiling hCeil => ?_, hSame.symm⟩
    obtain ⟨r, hr, hIn⟩ := hReach ceiling hCeil
    rw [hSelf hSame.symm] at hr
    rwa [Except.ok.inj hr]
  · simp [hType]

theorem decides_iff
    (hResolves : definition.supportsRoleScope b.scopeType → ∃ r, d.resolve b.scope = .ok r) :
    Decides principal action definition resource resolved b ↔
      Lists d principal definition resource resolved b ∨
        Overlooked d principal definition resolved b := by
  cases hScope : b.scopeType with
  | institution =>
    rw [hScope] at hResolves
    rw [decides_institution hRes hScope hResolves, or_iff_left]
    rintro ⟨hOther, -⟩
    rw [hScope] at hOther
    cases hOther
  | academicUnit => exact decides_academicUnit hOwned hRes hScope
  | academicClass =>
    rw [decides_class hOwned hAcc hRes hScope, or_iff_left]
    rintro ⟨hOther, -⟩
    rw [hScope] at hOther
    cases hOther

end

theorem contains_iff {bindings : List (RoleBinding ι)} {c : ScopeConstraint ι}
    (h : bindings.foldlM (accumulateBindingScope d principal definition) {} = .ok c) :
    c.Contains resource resolved ↔ ∃ b ∈ bindings, Lists d principal definition resource resolved b := by
  obtain ⟨-, hWide, hRoots, hClasses⟩ := foldlM_accumulate_ok h
  unfold ScopeConstraint.Contains
  simp only [hWide, hRoots, hClasses, false_eq_true, Finset.notMem_empty, false_or]
  constructor
  · rintro (⟨b, hb, hWidens⟩ | ⟨root, ⟨b, hb, hAdds⟩, hIn⟩ | ⟨hType, b, hb, hAdds⟩)
    · exact ⟨b, hb, .inl hWidens⟩
    · exact ⟨b, hb, .inr (.inl ⟨root, hIn, hAdds⟩)⟩
    · exact ⟨b, hb, .inr (.inr ⟨hType, hAdds⟩)⟩
  · rintro ⟨b, hb, hWidens | ⟨root, hIn, hAdds⟩ | ⟨hType, hAdds⟩⟩
    · exact .inl ⟨b, hb, hWidens⟩
    · exact .inr (.inl ⟨root, ⟨b, hb, hAdds⟩, hIn⟩)
    · exact .inr (.inr ⟨hType, b, hb, hAdds⟩)

end

/-! ### A faculty with a department and a dissolved one -/

/-- Institution 0 with the faculty 1, its department 2 and the archived department 3; Exam 7 belongs
to department 2. -/
def faculty : Directory Nat where
  institution := some 0
  units
    | 1 => some ⟨0, none, false⟩
    | 2 => some ⟨0, some 1, false⟩
    | 3 => some ⟨0, some 1, true⟩
    | _ => none
  programmes _ := none
  programmeLevels _ := none
  academicPeriods _ := none
  classes _ := none
  exams
    | 7 => some 2
    | _ => none
  sittings _ := none
  submissions _ := none
  activeUsers _ := true
  depth i := i
  acyclic := by
    intro i u p hUnit hParent
    split at hUnit <;> cases hUnit <;> cases hParent <;> decide
  owned := by
    intro i u owner hUnit _ hOwner
    cases hOwner
    split at hUnit <;> cases hUnit <;> rfl

def viewingExamsAt (units : List Nat) : Grants Nat where
  bindings := units.map fun unit => ⟨9, 5, .academicUnit, unit, 0, some 100, false⟩
  permissions
    | 5 => some [.examView]
    | _ => none

/-- User 9 through a personal access token for viewing Exams, within the unit if one is given. -/
def examToken (unit : Option Nat) : Principal Nat :=
  ⟨9, true, .personalAccessToken, [.examView], unit⟩

def examViewDefinition : ActionDefinition :=
  ⟨.exam, [], true, true, false, false, false⟩

/-! ### One decision against one listing -/

section
variable {resource : Resource ι} {resolved : ResolvedResource ι} {now : Int}

theorem personalAccessTokenAllows_iff (hOwned : resource.type.unitOwned) :
    personalAccessTokenAllows principal action resource resolved ↔
      action ∈ principal.credentialScopes ∧ WithinCeiling principal resolved := by
  unfold personalAccessTokenAllows WithinCeiling
  cases principal.academicUnitID with
  | none => simp
  | some ceiling =>
    obtain ⟨type, id⟩ := resource
    revert hOwned
    cases type <;> simp [ResourceType.unitOwned]

section

variable (hValid : principal.validate) (hDef : definitionForAction action = some definition)
  (hAcc : definition.acceptsResource resource.type) (hOwned : resource.type.unitOwned)
include hValid hDef hAcc hOwned

theorem evaluateResolved_iff (hCarries : tokenWithholds principal action definition = false) :
    evaluateResolved g principal action resource definition resolved now ↔
      ∃ b ∈ g.granting principal action now, Decides principal action definition resource resolved b := by
  obtain ⟨-, hView, hPicture⟩ := bindings_decide_of_unitOwned hDef hAcc hOwned
  have hToken : (principal.credentialType == .personalAccessToken &&
      !personalAccessTokenAllows principal action resource resolved) ↔
      ¬WithinCeiling principal resolved := by
    unfold tokenWithholds at hCarries
    unfold Principal.validate at hValid
    rw [and_eq_true, not_eq_true', ← Bool.not_eq_true, personalAccessTokenAllows_iff hOwned]
    cases hType : principal.credentialType with
    | sessionAccess =>
      have hNone : principal.academicUnitID = none := by
        simp only [hType, and_eq_true, Option.isNone_iff_eq_none] at hValid
        exact hValid.2.2
      simp [WithinCeiling, hNone]
    | personalAccessToken =>
      have hIn : action ∈ principal.credentialScopes := by
        simp only [hType, beq_self_eq_true, Bool.true_and, Bool.or_eq_false_iff, Bool.not_eq_false',
          contains_iff_mem] at hCarries
        exact hCarries.2
      simp [hIn]
    | unknown => simp [hType] at hValid
  unfold evaluateResolved Grants.granting Decides
  split
  · next hWithheld =>
    rw [hToken] at hWithheld
    simp [hWithheld]
  next hReach =>
  rw [hToken, not_not] at hReach
  simp only [beq_eq_false_iff_ne.mpr hView, beq_eq_false_iff_ne.mpr hPicture, Bool.or_self,
    Bool.false_and, false_eq_true, if_false, hReach, true_and, any_eq_true,
    mem_filter, and_eq_true]
  exact exists_congr fun b => ⟨fun ⟨hb, hApp, hGrants⟩ => ⟨⟨hb, hGrants⟩, hApp⟩,
    fun ⟨⟨hb, hGrants⟩, hApp⟩ => ⟨hb, hApp, hGrants⟩⟩

omit hOwned in
theorem can_of_coarse (hBound : definition.relationshipOnly = false)
    (hCoarse : coarseAuthority d g principal action resource now = .ok true)
    (hRes : d.resolve resource = .ok resolved) :
    can d g principal action resource now = .ok (!tokenWithholds principal action definition &&
        evaluateResolved g principal action resource definition resolved now) := by
  unfold can tokenWithholds evaluateResolved personalAccessTokenAllows
  simp only [hValid, hDef, hAcc, hBound, hCoarse, hRes, Bool.not_true, false_eq_true, if_false]
  cases hType : principal.credentialType == .personalAccessToken with
  | false => rfl
  | true =>
    cases hForbidden : definition.personalAccessTokenForbidden with
    | true => rfl
    | false =>
      cases hCarried : principal.credentialScopes.contains action with
      | true => rfl
      | false => rfl

theorem can_unitOwned (hRes : d.resolve resource = .ok resolved) :
    can d g principal action resource now = .ok (!tokenWithholds principal action definition &&
        evaluateResolved g principal action resource definition resolved now) := by
  obtain ⟨hBound, -, -⟩ := bindings_decide_of_unitOwned hDef hAcc hOwned
  have hPeriod : resource.type ≠ .academicPeriod := by
    intro hType
    rw [hType] at hOwned
    cases hOwned
  exact can_of_coarse hValid hDef hAcc hBound (if_neg hPeriod) hRes

end

/-- A decision agrees with a listing exactly when the bindings the listing overlooks, those above
the token's unit, grant nothing that another binding does not. -/
theorem can_iff_contains {t : ResourceType} {c : ScopeConstraint ι}
    (hDefinition : definitionForAction action = some definition)
    (hAccepts : definition.acceptsResource resource.type = true)
    (hOwned : resource.type.unitOwned = true) (hResolved : d.resolve resource = .ok resolved)
    (hScopes : authorizedScopesAt d g principal action t now = .ok c) :
    ∃ allowed, can d g principal action resource now = .ok allowed ∧
      ((allowed = true ↔ c.Contains resource resolved) ↔
        tokenWithholds principal action definition = true ∨
        ∀ b ∈ g.granting principal action now, Overlooked d principal definition resolved b →
          ∃ b' ∈ g.granting principal action now, Lists d principal definition resource resolved b') := by
  obtain ⟨hValid, -, hColl⟩ := authorizedScopesAt_ok hDefinition hScopes
  refine ⟨_, can_unitOwned hValid hDefinition hAccepts hOwned hResolved, ?_⟩
  cases hWithholds : tokenWithholds principal action definition with
  | true =>
    rw [hWithholds] at hColl
    subst hColl
    simp [ScopeConstraint.Contains]
  | false =>
    rw [hWithholds] at hColl
    obtain ⟨-, hFold⟩ := hColl
    have hRes := (foldlM_accumulate_ok hFold).1
    rw [Bool.not_false, Bool.true_and,
      evaluateResolved_iff hValid hDefinition hAccepts hOwned hWithholds, contains_iff hFold]
    simp only [false_eq_true, false_or]
    constructor
    · intro hAgree b hb hOverlooked
      exact hAgree.mp ⟨b, hb, (decides_iff hOwned hAccepts hResolved (hRes b hb)).mpr (.inr hOverlooked)⟩
    intro hCovered
    constructor
    · rintro ⟨b, hb, hDecides⟩
      obtain hLists | hOverlooked :=
        (decides_iff hOwned hAccepts hResolved (hRes b hb)).mp hDecides
      · exact ⟨b, hb, hLists⟩
      · exact hCovered b hb hOverlooked
    · rintro ⟨b, hb, hLists⟩
      exact ⟨b, hb, (decides_iff hOwned hAccepts hResolved (hRes b hb)).mpr (.inl hLists)⟩

theorem can_iff_contains_department :
    ∃ allowed, can faculty (viewingExamsAt [2]) (examToken (some 2)) .examView ⟨.exam, 7⟩ 10 = .ok allowed ∧
      ((allowed = true ↔ ScopeConstraint.Contains ⟨some 0, false, {2}, ∅⟩ (⟨.exam, 7⟩ : Resource Nat)
          ⟨some 0, [2, 1], some 2, none, false⟩) ↔
        tokenWithholds (examToken (some 2)) .examView examViewDefinition = true ∨
        ∀ b ∈ (viewingExamsAt [2]).granting (examToken (some 2)) .examView 10,
          Overlooked faculty (examToken (some 2)) examViewDefinition
            ⟨some 0, [2, 1], some 2, none, false⟩ b →
          ∃ b' ∈ (viewingExamsAt [2]).granting (examToken (some 2)) .examView 10,
            Lists faculty (examToken (some 2)) examViewDefinition ⟨.exam, 7⟩
              ⟨some 0, [2, 1], some 2, none, false⟩ b') :=
  can_iff_contains (t := .exam) rfl rfl rfl rfl rfl

/-- The role held at the faculty, above the token's unit: the Exam may be viewed and is not listed. -/
theorem can_above_ceiling_unlisted :
    can faculty (viewingExamsAt [1]) (examToken (some 2)) .examView ⟨.exam, 7⟩ 10 = .ok true ∧
      authorizedScopesAt faculty (viewingExamsAt [1]) (examToken (some 2)) .examView .exam 10 = .ok {} ∧
      ¬ScopeConstraint.Contains {} (⟨.exam, 7⟩ : Resource Nat) ⟨some 0, [2, 1], some 2, none, false⟩ := by
  refine ⟨rfl, rfl, ?_⟩
  simp [ScopeConstraint.Contains]

end

/-! ### Role bindings whose scope is gone -/

def RoleBinding.stale (d : Directory ι) (b : RoleBinding ι) : Bool :=
  b.scopeType ≠ .institution && !(d.resolve b.scope).isOk

def Grants.live (d : Directory ι) (g : Grants ι) : Grants ι :=
  { g with bindings := g.bindings.filter fun b => !b.stale d }

/-- No stale binding can reach the listing: the token carries nothing, or the active bindings are
within their bound and none that grants the action at its scope is stale. -/
def Unaffected (d : Directory ι) (g : Grants ι) (principal : Principal ι) (action : Action)
    (definition : ActionDefinition) (now : Int) : Prop :=
  tokenWithholds principal action definition = true ∨
  (g.listActiveByUser principal.userID now).length ≤ 256 ∧
    ∀ b ∈ g.granting principal action now, definition.supportsRoleScope b.scopeType = true →
      b.stale d = false

theorem listActiveByUser_live (user : ι) (now : Int) :
    (g.live d).listActiveByUser user now = (g.listActiveByUser user now).filter fun b => !b.stale d := by
  exact filter_comm ..

theorem granting_live (now : Int) : (g.live d).granting principal action now =
      (g.granting principal action now).filter fun b => !b.stale d := by
  unfold Grants.granting
  rw [listActiveByUser_live, filter_comm]
  rfl

theorem foldlM_filter_of_skips {α β ε : Type} {f : β → α → Except ε β} {keep : α → Bool} (l : List α)
    (start : β) (hSkips : ∀ x ∈ l, keep x = false → ∀ s, f s x = .ok s) :
    (l.filter keep).foldlM f start = l.foldlM f start := by
  induction l generalizing start with
  | nil => rfl
  | cons x rest ih =>
    have hRest : ∀ y ∈ rest, keep y = false → ∀ s, f s y = .ok s := fun y hy =>
      hSkips y (mem_cons_of_mem x hy)
    cases hKeep : keep x with
    | false =>
      rw [filter_cons_of_neg (by simp [hKeep]), ih start hRest, foldlM_cons,
        hSkips x mem_cons_self hKeep start]
      rfl
    | true =>
      rw [filter_cons_of_pos hKeep, foldlM_cons]
      congr 1
      funext next
      exact ih next hRest

theorem authorizedScopesAt_live {now : Int} (t : ResourceType)
    (hDef : definitionForAction action = some definition)
    (h : Unaffected d g principal action definition now) :
    authorizedScopesAt d (g.live d) principal action t now = authorizedScopesAt d g principal action t now := by
  unfold authorizedScopesAt
  simp only [hDef]
  obtain hWithholds | ⟨hBound, hFresh⟩ := h
  · simp only [hWithholds, if_true]
  have hBoundLive : ¬256 < ((g.live d).listActiveByUser principal.userID now).length := by
    rw [listActiveByUser_live]
    have hLen := length_filter_le (fun b => !b.stale d) (g.listActiveByUser principal.userID now)
    omega
  have hSkips : ∀ b ∈ g.granting principal action now, (!b.stale d) = false → ∀ c,
      accumulateBindingScope d principal definition c b = .ok c := by
    intro b hb hStale c
    refine accumulateBindingScope_of_unsupported c ?_
    by_contra hSupp
    rw [hFresh b hb (by simpa using hSupp)] at hStale
    cases hStale
  have hFold := foldlM_filter_of_skips _ {} hSkips
  rw [← granting_live] at hFold
  unfold Grants.granting at hFold
  rw [if_neg hBoundLive, if_neg (not_lt.mpr hBound), hFold]

section
variable {resource : Resource ι} {resolved : ResolvedResource ι} {now : Int}

theorem roleBindingApplies_of_stale {b : RoleBinding ι} (hRes : d.resolve resource = .ok resolved)
    (hType : resource.type ≠ .academicPeriod) (hStale : b.stale d) :
    roleBindingApplies b action definition resource resolved = false := by
  have hOwner : resolved.academicPeriodInstitutionOwned = false := by
    obtain ⟨-, ⟨-, -, hOwner, -⟩ | ⟨-, -, -, -, hOwner⟩⟩ := resolve_ok hRes
    · rw [hOwner, beq_eq_false_iff_ne]
      exact hType
    · exact hOwner
  simp only [RoleBinding.stale, and_eq_true, decide_eq_true_eq, not_eq_true'] at hStale
  obtain ⟨hNotInstitution, hGone⟩ := hStale
  unfold roleBindingApplies
  cases hScope : b.scopeType with
  | institution => exact absurd hScope hNotInstitution
  | academicUnit =>
    simp only [hOwner, Bool.and_false, false_eq_true, if_false]
    cases hHas : resolved.academicUnitIDs.contains b.scopeID with
    | false => simp
    | true =>
      have hOk := resolve_academicUnit_isOk hRes (contains_iff_mem.mp hHas)
      rw [RoleBinding.scope, hScope, hOk] at hGone
      cases hGone
  | academicClass =>
    rw [Bool.and_eq_false_iff, decide_eq_false_iff_not, decide_eq_false_iff_not]
    by_cases hType : resource.type = .academicClass
    · refine .inr fun hSame => ?_
      rw [(resolve_ok hRes).1, if_pos hType, some.injEq] at hSame
      rw [RoleBinding.scope, hScope, hSame, roleScopeResource_class hType, hRes] at hGone
      cases hGone
    · exact .inl hType

theorem evaluateResolved_live (hOut : ∀ b ∈ g.listActiveByUser principal.userID now, b.stale d →
      (roleBindingApplies b action definition resource resolved && g.grants action b) = false) :
    evaluateResolved (g.live d) principal action resource definition resolved now =
      evaluateResolved g principal action resource definition resolved now := by
  unfold evaluateResolved
  rw [listActiveByUser_live, any_filter]
  split
  · rfl
  split
  · rfl
  rw [Bool.eq_iff_iff, any_eq_true, any_eq_true]
  refine exists_congr fun b => and_congr_right fun hb => ?_
  cases hStale : b.stale d with
  | false => rfl
  | true => simp only [hOut b hb hStale, Bool.not_true, Bool.false_and]

theorem can_live_of (hRes : d.resolve resource = .ok resolved)
    (hCoarse : coarseAuthority d (g.live d) principal action resource now =
      coarseAuthority d g principal action resource now)
    (hEvaluate : ∀ definition, definitionForAction action = some definition →
      definition.acceptsResource resource.type →
      (principal.credentialType == .personalAccessToken && definition.personalAccessTokenForbidden) = false →
      evaluateResolved (g.live d) principal action resource definition resolved now =
        evaluateResolved g principal action resource definition resolved now) :
    can d (g.live d) principal action resource now = can d g principal action resource now := by
  unfold can
  rw [hCoarse]
  cases hDef : definitionForAction action with
  | none => rfl
  | some definition =>
    cases hAcc : definition.acceptsResource resource.type with
    | false => simp only [hAcc, Bool.not_false, if_true]
    | true =>
      cases hForbidden : principal.credentialType == .personalAccessToken &&
          definition.personalAccessTokenForbidden with
      | true => simp only [hForbidden, if_true]
      | false => simp only [hRes, bind, Except.bind, hEvaluate definition hDef hAcc hForbidden]

theorem can_live_of_ne_academicPeriod (hType : resource.type ≠ .academicPeriod)
    (hRes : d.resolve resource = .ok resolved) :
    can d (g.live d) principal action resource now = can d g principal action resource now := by
  refine can_live_of hRes ?_ fun definition _ _ _ => evaluateResolved_live fun b _ hStale => ?_
  · rw [coarseAuthority, coarseAuthority, if_neg hType, if_neg hType]
  · rw [roleBindingApplies_of_stale hRes hType hStale, Bool.false_and]

theorem supportsRoleScope_of_applies {b : RoleBinding ι}
    (hAcc : definition.acceptsResource resource.type)
    (h : roleBindingApplies b action definition resource resolved) :
    definition.supportsRoleScope b.scopeType := by
  unfold roleBindingApplies at h
  cases hScope : b.scopeType with
  | institution =>
    simp only [hScope, and_eq_true] at h
    exact h.1
  | academicUnit =>
    simp only [hScope] at h
    split at h
    · cases h
    · next hInh => simpa [ActionDefinition.supportsRoleScope] using hInh
  | academicClass =>
    simp only [hScope, and_eq_true, decide_eq_true_eq] at h
    rwa [h.1] at hAcc

theorem can_live (hDef : definitionForAction action = some definition)
    (hRes : d.resolve resource = .ok resolved) (h : Unaffected d g principal action definition now) :
    can d (g.live d) principal action resource now = can d g principal action resource now := by
  refine can_live_of hRes ?_ fun definition' hDef' hAcc hPermitted => ?_
  · unfold coarseAuthority academicPeriodCoarseAuthority
    rw [authorizedScopesAt_live .academicPeriod hDef h]
  obtain rfl : definition = definition' := some.inj (hDef.symm.trans hDef')
  obtain hWithholds | ⟨-, hFresh⟩ := h
  · -- The token's scopes lack the action, so neither evaluation gets to the bindings.
    simp only [tokenWithholds, Bool.and_or_distrib_left, hPermitted, Bool.false_or,
      and_eq_true, not_eq_true'] at hWithholds
    simp only [evaluateResolved, personalAccessTokenAllows, hWithholds, Bool.false_and, Bool.not_false,
      Bool.and_self, if_true]
  · refine evaluateResolved_live fun b hb hStale => ?_
    cases hApp : roleBindingApplies b action definition resource resolved with
    | false => rfl
    | true =>
      cases hGrants : g.grants action b with
      | false => rfl
      | true =>
        rw [hFresh b (mem_filter.mpr ⟨hb, hGrants⟩)
          (supportsRoleScope_of_applies hAcc hApp)] at hStale
        cases hStale

/-- Stale bindings never change the decision on a live resource other than an Academic Period. They
leave the listing, and every decision, as without them exactly when none reaches the listing. -/
theorem stale_bindings_harmless_iff {t : ResourceType} {c : ScopeConstraint ι}
    (hDefinition : definitionForAction action = some definition)
    (hLive : authorizedScopesAt d (g.live d) principal action t now = .ok c) :
    (∀ resource resolved, resource.type ≠ .academicPeriod → d.resolve resource = .ok resolved →
      can d g principal action resource now = can d (g.live d) principal action resource now) ∧
    ((authorizedScopesAt d g principal action t now = .ok c ∧
        ∀ resource resolved, d.resolve resource = .ok resolved →
          can d g principal action resource now = can d (g.live d) principal action resource now) ↔
      Unaffected d g principal action definition now) := by
  refine ⟨fun resource resolved hType hRes =>
    (can_live_of_ne_academicPeriod hType hRes).symm, ?_, fun hUnaffected => ⟨?_, ?_⟩⟩
  · rintro ⟨hScopes, -⟩
    obtain ⟨-, -, hColl⟩ := authorizedScopesAt_ok hDefinition hScopes
    unfold Unaffected
    cases hWithholds : tokenWithholds principal action definition with
    | true => exact .inl rfl
    | false =>
      rw [hWithholds] at hColl
      obtain ⟨hBound, hFold⟩ := hColl
      refine .inr ⟨hBound, fun b hb hSupp => ?_⟩
      obtain ⟨r, hr⟩ := (foldlM_accumulate_ok hFold).1 b hb hSupp
      simp [RoleBinding.stale, hr, Except.isOk, Except.toBool]
  · rw [← authorizedScopesAt_live t hDefinition hUnaffected]
    exact hLive
  · intro resource resolved hRes
    exact (can_live hDefinition hRes hUnaffected).symm

/-- Beside the role at a live unit, the same role at the dissolved department. -/
theorem stale_bindings_harmless_iff_dissolved :
    (∀ resource resolved, resource.type ≠ .academicPeriod → faculty.resolve resource = .ok resolved →
      can faculty (viewingExamsAt [2, 3]) (examToken none) .examView resource 10 =
        can faculty ((viewingExamsAt [2, 3]).live faculty) (examToken none) .examView resource 10) ∧
    ((authorizedScopesAt faculty (viewingExamsAt [2, 3]) (examToken none) .examView .exam 10 =
          .ok ⟨some 0, false, {2}, ∅⟩ ∧ ∀ resource resolved, faculty.resolve resource = .ok resolved →
          can faculty (viewingExamsAt [2, 3]) (examToken none) .examView resource 10 =
            can faculty ((viewingExamsAt [2, 3]).live faculty) (examToken none) .examView resource 10) ↔
      Unaffected faculty (viewingExamsAt [2, 3]) (examToken none) .examView examViewDefinition 10) :=
  stale_bindings_harmless_iff rfl rfl

/-- A role at a live unit and one at the dissolved department: the listing fails, and without the
second it returns the first. -/
theorem stale_binding_fails_listing :
    authorizedScopesAt faculty (viewingExamsAt [2, 3]) (examToken none) .examView .exam 10 =
        .error (.notFound "academic_unit") ∧
      authorizedScopesAt faculty ((viewingExamsAt [2, 3]).live faculty) (examToken none) .examView .exam 10 =
        .ok ⟨some 0, false, {2}, ∅⟩ ∧
      can faculty (viewingExamsAt [2, 3]) (examToken none) .examView ⟨.exam, 7⟩ 10 = .ok true :=
  ⟨rfl, rfl, rfl⟩

end

end Proctor.Access
