import Proctor.Access.Listing

/-! # Delegation of actions

Whether a principal may hand its actions on at a scope, against what a role binding at that scope
gives to its holder; and what a chain of such delegations gives to anyone in it. -/
namespace Proctor.Access

open Fallible Hierarchy List Directory
open Bool (and_eq_true false_eq_true)

variable {ι : Type} [DecidableEq ι]

def protectedDelegationAction : Action → Bool
  | .institutionManage | .roleManage | .roleBindingManage | .accessPolicyManage
  | .externalIdentityManage => true
  | _ => false

def delegationConstraintContains (c : ScopeConstraint ι) (target : Resource ι)
    (resolved : ResolvedResource ι) (strictParent : Bool) : Bool :=
  c.institutionWide || match target.type with
    | .academicUnit => resolved.academicUnitIDs.any fun root =>
        decide (root ∈ c.academicUnitRootIDs) && (!strictParent || root ≠ target.id)
    | .academicClass => (!strictParent && decide (target.id ∈ c.classIDs)) ||
        resolved.academicUnitIDs.any fun root => decide (root ∈ c.academicUnitRootIDs)
    | _ => false

section
variable (d : Directory ι) (g : Grants ι) (principal : Principal ι)

/-- The loop of `canDelegateActionsAtScope` over the actions. -/
def delegatesEach (scopeType : RoleScopeType) (target : Resource ι) (resolved : ResolvedResource ι)
    (now : Int) : List Action → Except AccessError Bool
  | [] => .ok true
  | action :: rest =>
    match definitionForAction action with
    | none => .ok false
    | some definition =>
      if definition.relationshipOnly then .ok false
      else do
        let c ← authorizedScopesAt d g principal action definition.resourceType now
        let strictParent := protectedDelegationAction action && scopeType ≠ .institution
        if delegationConstraintContains c target resolved strictParent then
          delegatesEach scopeType target resolved now rest
        else .ok false

def canDelegateActionsAtScope (actions : List Action) (scopeType : RoleScopeType) (scopeID : ι)
    (now : Int) : Except AccessError Bool := do
  let target := roleScopeResource scopeType scopeID
  let resolved ← d.resolve target
  delegatesEach d g principal scopeType target resolved now actions

end

/-! ### What the delegation check finds -/

variable {d : Directory ι} {g : Grants ι} {principal : Principal ι} {action : Action}
  {definition : ActionDefinition} {scopeType : RoleScopeType} {scopeID : ι} {now : Int}
  {resolved : ResolvedResource ι} {actions : List Action} {target : Resource ι} {strictParent : Bool}

theorem delegatesEach_true
    (h : delegatesEach d g principal scopeType target resolved now actions = .ok true) :
    ∀ action ∈ actions, ∃ definition c, definitionForAction action = some definition ∧
      definition.relationshipOnly = false ∧
      authorizedScopesAt d g principal action definition.resourceType now = .ok c ∧
      delegationConstraintContains c target resolved
        (protectedDelegationAction action && scopeType ≠ .institution) := by
  induction actions with
  | nil => nofun
  | cons first rest ih =>
    rw [delegatesEach] at h
    split at h
    · cases h
    next definition hDef =>
    split at h
    · cases h
    next hBound =>
    obtain ⟨c, hScopes, h⟩ := bind_ok h
    dsimp only at h
    split at h
    · next hHas =>
      intro action hAction
      obtain rfl | hAction := mem_cons.mp hAction
      · exact ⟨definition, c, hDef, by simpa using hBound, hScopes, hHas⟩
      · exact ih h action hAction
    · cases h

/-- A granting binding that covers the scope: it is the Institution's, or that of an Academic Unit
over the scope, or that of the very Class. -/
def Covers (d : Directory ι) (definition : ActionDefinition) (target : Resource ι)
    (resolved : ResolvedResource ι) (strictParent : Bool) (b : RoleBinding ι) : Prop :=
  (b.scopeType = .institution ∧ definition.inheritInstitutionScope = true ∧
    d.institution = some b.scopeID) ∨
  (b.scopeType = .academicUnit ∧ definition.inheritAcademicUnitScopes = true ∧
    b.scopeID ∈ resolved.academicUnitIDs ∧
    (target.type = .academicUnit → strictParent = true → b.scopeID ≠ target.id) ∧
    (target.type = .academicUnit ∨ target.type = .academicClass)) ∨
  (b.scopeType = .academicClass ∧ target.type = .academicClass ∧ b.scopeID = target.id ∧
    strictParent = false)

theorem resolveInstitution_ok {id : ι}
    (h : d.resolve ⟨.institution, id⟩ = .ok resolved) : d.institution = some id := by
  simp only [resolve, resolveInstitution] at h
  split at h
  · assumption
  · cases h

variable {c : ScopeConstraint ι} {t : ResourceType}

theorem covers_of_contains (hCeil : principal.academicUnitID = none)
    (hDef : definitionForAction action = some definition)
    (hScopes : authorizedScopesAt d g principal action t now = .ok c)
    (hHas : delegationConstraintContains c target resolved strictParent) :
    tokenWithholds principal action definition = false ∧
      ∃ b ∈ g.granting principal action now, Covers d definition target resolved strictParent b := by
  obtain ⟨-, -, hColl⟩ := authorizedScopesAt_ok hDef hScopes
  cases hWithholds : tokenWithholds principal action definition with
  | true =>
    -- a token that does not carry the action has an empty constraint
    rw [hWithholds] at hColl
    subst hColl
    exfalso
    revert hHas
    unfold delegationConstraintContains
    cases target.type <;> simp
  | false =>
    rw [hWithholds] at hColl
    obtain ⟨hRes, hWide, hRoots, hClasses⟩ := foldlM_accumulate_ok hColl.2
    have hRoot : ∀ root ∈ c.academicUnitRootIDs, ∃ b ∈ g.granting principal action now,
        b.scopeType = .academicUnit ∧ definition.inheritAcademicUnitScopes ∧
          root = b.scopeID := by
      intro root hIn
      obtain hIn | ⟨b, hb, ⟨-, -, hUnit⟩ | ⟨hScope, hInh, hSame, -⟩⟩ := (hRoots root).mp hIn
      · simp at hIn
      · rw [hCeil] at hUnit
        cases hUnit
      · exact ⟨b, hb, hScope, hInh, hSame⟩
    refine ⟨rfl, ?_⟩
    simp only [delegationConstraintContains, Bool.or_eq_true] at hHas
    rcases hHas with hHas | hHas
    · obtain hStart | ⟨b, hb, hScope, hInh, -⟩ := hWide.mp hHas
      · cases hStart
      obtain ⟨r, hr⟩ := hRes b hb (by rw [hScope]; exact hInh)
      rw [RoleBinding.scope, hScope] at hr
      exact ⟨b, hb, .inl ⟨hScope, hInh, resolveInstitution_ok hr⟩⟩
    · cases hTarget : target.type with
      | academicUnit =>
        simp only [hTarget, any_eq_true, and_eq_true, decide_eq_true_eq] at hHas
        obtain ⟨root, hIn, hMem, hStrict⟩ := hHas
        obtain ⟨b, hb, hScope, hInh, rfl⟩ := hRoot root hMem
        refine ⟨b, hb, .inr (.inl ⟨hScope, hInh, hIn, fun _ hPar => ?_, .inl hTarget⟩)⟩
        simpa [hPar] using hStrict
      | academicClass =>
        simp only [hTarget, Bool.or_eq_true, and_eq_true, decide_eq_true_eq, any_eq_true] at hHas
        rcases hHas with ⟨hPar, hMem⟩ | ⟨root, hIn, hMem⟩
        · obtain hMem | ⟨b, hb, hScope, -, hSame, -⟩ := (hClasses _).mp hMem
          · simp at hMem
          · exact ⟨b, hb, .inr (.inr ⟨hScope, hTarget, hSame.symm, by simpa using hPar⟩)⟩
        · obtain ⟨b, hb, hScope, hInh, rfl⟩ := hRoot root hMem
          refine ⟨b, hb, .inr (.inl ⟨hScope, hInh, hIn, fun hUnit => ?_, .inr hTarget⟩)⟩
          rw [hTarget] at hUnit
          cases hUnit
      | _ => simp [hTarget] at hHas

/-! ### What a covering binding allows -/

variable {resource : Resource ι}

theorem resolve_units_trans {resolved target : ResolvedResource ι} {unit root : ι}
    (h : d.resolve resource = .ok resolved) (hUnit : unit ∈ resolved.academicUnitIDs)
    (hTarget : d.resolve ⟨.academicUnit, unit⟩ = .ok target) (hRoot : root ∈ target.academicUnitIDs) :
    root ∈ resolved.academicUnitIDs := by
  obtain ⟨-, rfl⟩ := resolveAcademicUnitScope_ok hTarget
  obtain ⟨-, ⟨-, hNone, -⟩ | ⟨owner, -, hUnits, -, -⟩⟩ := resolve_ok h
  · rw [hNone] at hUnit
    cases hUnit
  · rw [hUnits] at hUnit ⊢
    exact Forest.mem_chain_trans hRoot hUnit

theorem applies_of_covers {b held : RoleBinding ι} {resolved target : ResolvedResource ι}
    (hTarget : d.resolve (roleScopeResource b.scopeType b.scopeID) = .ok target)
    (hCovers : Covers d definition (roleScopeResource b.scopeType b.scopeID) target strictParent held)
    (hRes : d.resolve resource = .ok resolved)
    (hApp : roleBindingApplies b action definition resource resolved) :
    roleBindingApplies held action definition resource resolved := by
  obtain ⟨hScope, hInh, hInst⟩ | ⟨hScope, hInh, hIn, -, hType⟩ |
    ⟨hScope, hType, hSame, -⟩ := hCovers
  · simp [roleBindingApplies, hScope, hInh, resolve_institutionID hInst hRes]
  · cases hDeleg : b.scopeType with
    | institution => simp [hDeleg] at hType
    | academicUnit =>
      rw [hDeleg] at hTarget
      simp only [roleBindingApplies, hDeleg, hScope, hInh, Bool.not_true,
        false_eq_true, if_false] at hApp ⊢
      split at hApp
      · next hPeriod => rw [if_pos hPeriod]; exact hApp
      next hPeriod =>
      rw [if_neg hPeriod, contains_iff_mem]
      exact resolve_units_trans hRes (contains_iff_mem.mp hApp) hTarget hIn
    | academicClass =>
      -- the binding at a Class applies to that Class only, which resolves to the same units
      simp only [roleBindingApplies, hDeleg, and_eq_true, decide_eq_true_eq] at hApp
      obtain ⟨hClass, hID⟩ := hApp
      obtain ⟨hResolvedID, -⟩ := resolve_ok hRes
      rw [hClass, if_pos rfl, ← hID, Option.some.injEq] at hResolvedID
      have hResource : resource = roleScopeResource b.scopeType b.scopeID := by
        rw [hDeleg, hResolvedID]
        cases resource
        cases hClass
        rfl
      rw [hResource, hTarget, Except.ok.injEq] at hRes
      subst hRes
      simp [roleBindingApplies, hScope, hInh, hClass, hIn]
  · cases hDeleg : b.scopeType with
    | academicClass =>
      simp only [roleBindingApplies, hDeleg, hScope, and_eq_true, decide_eq_true_eq] at hApp ⊢
      rw [hSame]
      exact hApp
    | institution | academicUnit => simp [hDeleg] at hType

theorem authorizedScopesAt_type {t t' : ResourceType}
    (hDef : definitionForAction action = some definition) (hAcc : definition.acceptsResource t')
    (h : authorizedScopesAt d g principal action t now = .ok c) :
    authorizedScopesAt d g principal action t' now = .ok c := by
  obtain ⟨hValid, hBefore, -⟩ := authorizedScopesAt_ok hDef h
  simp only [authorizedScopesAt, hValid, hDef, hBefore, hAcc, Bool.not_true,
    false_eq_true, if_false] at h ⊢
  exact h

variable {b : RoleBinding ι}

section

variable (hCeil : principal.academicUnitID = none)
include hCeil

theorem can_of_applies (hDef : definitionForAction action = some definition)
    (hBound : definition.relationshipOnly = false)
    (hAcc : definition.acceptsResource resource.type)
    (hScopes : authorizedScopesAt d g principal action t now = .ok c)
    (hCarries : tokenWithholds principal action definition = false)
    (hRes : d.resolve resource = .ok resolved) (hb : b ∈ g.granting principal action now)
    (hApp : roleBindingApplies b action definition resource resolved) :
    can d g principal action resource now = .ok true := by
  obtain ⟨hValid, -, hColl⟩ := authorizedScopesAt_ok hDef hScopes
  rw [hCarries] at hColl
  obtain ⟨-, hWide, hRoots, -⟩ := foldlM_accumulate_ok hColl.2
  have hAllows : (principal.credentialType == .personalAccessToken &&
      !personalAccessTokenAllows principal action resource resolved) = false := by
    unfold tokenWithholds at hCarries
    cases hType : principal.credentialType == .personalAccessToken with
    | false => rfl
    | true =>
      rw [hType, Bool.true_and, Bool.or_eq_false_iff, Bool.not_eq_false'] at hCarries
      rw [personalAccessTokenAllows, hCeil, hCarries.2]
      rfl
  have hCoarse : coarseAuthority d g principal action resource now = .ok true := by
    unfold coarseAuthority
    split
    · next hPeriod =>
      rw [hPeriod] at hAcc
      have hNonempty : c.institutionWide = true ∨ c.academicUnitRootIDs.Nonempty := by
        cases hScope : b.scopeType with
        | institution =>
          simp only [roleBindingApplies, hScope, and_eq_true] at hApp
          exact .inl (hWide.mpr (.inr ⟨b, hb, hScope, hApp.1, hCeil⟩))
        | academicUnit =>
          have hInh : definition.inheritAcademicUnitScopes := by
            by_contra hNot
            simp [roleBindingApplies, hScope, hNot] at hApp
          refine .inr ⟨b.scopeID, (hRoots _).mpr (.inr ⟨b, hb, .inr ⟨hScope, hInh, rfl, ?_⟩⟩)⟩
          simp [hCeil]
        | academicClass => simp [roleBindingApplies, hScope, hPeriod] at hApp
      rw [academicPeriodCoarseAuthority, authorizedScopesAt_type hDef hAcc hScopes]
      rcases hNonempty with hWideTrue | hRootsTrue
      · simp [bind, Except.bind, hWideTrue]
      · simp [bind, Except.bind, hRootsTrue]
    · rfl
  have hEvaluated : evaluateResolved g principal action resource definition resolved now := by
    unfold evaluateResolved
    rw [hAllows, if_neg Bool.false_ne_true]
    split
    · rfl
    · obtain ⟨hActive, hGrants⟩ := mem_filter.mp hb
      exact any_eq_true.mpr ⟨b, hActive, by rw [hApp, hGrants]; rfl⟩
  rw [can_of_coarse hValid hDef hAcc hBound hCoarse hRes, hCarries, hEvaluated]
  rfl

/-! ### One delegation -/

/-- The binding gives its holder the action on the resource: a resource of a type the action accepts,
to which the binding applies. -/
def Gives (d : Directory ι) (b : RoleBinding ι) (action : Action) (resource : Resource ι) : Prop :=
  ∃ definition resolved, definitionForAction action = some definition ∧
    definition.acceptsResource resource.type = true ∧ d.resolve resource = .ok resolved ∧
    roleBindingApplies b action definition resource resolved = true

/-- What the check says of one action and one binding at the scope: a binding of the principal grants
the action on whatever the delegated binding would apply to. -/
theorem held_of_canDelegate
    (h : canDelegateActionsAtScope d g principal actions b.scopeType b.scopeID now = .ok true)
    (hAction : action ∈ actions) (hGives : Gives d b action resource) :
    ∃ definition c held, definitionForAction action = some definition ∧
      definition.relationshipOnly = false ∧
      authorizedScopesAt d g principal action definition.resourceType now = .ok c ∧
      tokenWithholds principal action definition = false ∧
      held ∈ g.granting principal action now ∧ Gives d held action resource := by
  obtain ⟨target, hTarget, hEach⟩ := bind_ok h
  obtain ⟨definition, c, hDef, hBound, hScopes, hHas⟩ :=
    delegatesEach_true hEach action hAction
  obtain ⟨hCarries, held, hHeld, hCovers⟩ := covers_of_contains hCeil hDef hScopes hHas
  obtain ⟨definition', resolved, hSame, hAcc, hRes, hApp⟩ := hGives
  cases hDef.symm.trans hSame
  refine ⟨definition, c, held, hDef, hBound, hScopes, hCarries, hHeld, ?_⟩
  exact ⟨definition, resolved, hDef, hAcc, hRes,
    applies_of_covers hTarget hCovers hRes hApp⟩

theorem can_of_gives {held : RoleBinding ι} (hDef : definitionForAction action = some definition)
    (hBound : definition.relationshipOnly = false)
    (hScopes : authorizedScopesAt d g principal action definition.resourceType now = .ok c)
    (hCarries : tokenWithholds principal action definition = false)
    (hHeld : held ∈ g.granting principal action now) (hGives : Gives d held action resource) :
    can d g principal action resource now = .ok true := by
  obtain ⟨definition', resolved, hSame, hAcc, hRes, hApp⟩ := hGives
  cases hDef.symm.trans hSame
  exact can_of_applies hCeil hDef hBound hAcc hScopes hCarries hRes hHeld hApp

/-- The binding's scope lies strictly above the target: it is the Institution, or an Academic Unit
over the target that is not the target itself. -/
def StrictlyAbove (d : Directory ι) (b : RoleBinding ι) (target : Resource ι) : Prop :=
  (b.scopeType = .institution ∧ d.institution = some b.scopeID) ∨
  (b.scopeType = .academicUnit ∧ (target.type = .academicUnit → b.scopeID ≠ target.id) ∧
    ∃ resolved, d.resolve target = .ok resolved ∧ b.scopeID ∈ resolved.academicUnitIDs)

theorem strictlyAbove_of_canDelegate
    (h : canDelegateActionsAtScope d g principal actions scopeType scopeID now = .ok true)
    (hAction : action ∈ actions) (hProtected : protectedDelegationAction action)
    (hScope : scopeType ≠ .institution) : ∃ held ∈ g.granting principal action now,
      StrictlyAbove d held (roleScopeResource scopeType scopeID) := by
  obtain ⟨target, hTarget, hEach⟩ := bind_ok h
  obtain ⟨definition, c, hDef, -, hScopes, hHas⟩ := delegatesEach_true hEach action hAction
  obtain ⟨-, held, hHeld, hCovers⟩ := covers_of_contains hCeil hDef hScopes hHas
  have hStrict : (protectedDelegationAction action && decide (scopeType ≠ .institution)) := by
    rw [hProtected, decide_eq_true hScope]
    rfl
  refine ⟨held, hHeld, ?_⟩
  obtain ⟨hOwn, -, hInst⟩ | ⟨hOwn, -, hIn, hPar, -⟩ | ⟨-, -, -, hLoose⟩ := hCovers
  · exact .inl ⟨hOwn, hInst⟩
  · exact .inr ⟨hOwn, fun hUnit => hPar hUnit hStrict, target, hTarget, hIn⟩
  · rw [hStrict] at hLoose
    cases hLoose

end

/-! ### Chains of delegations -/

/-- One delegation: the role binding that the delegator creates at a time. -/
structure Delegation (ι : Type) where
  delegator : Principal ι
  binding : RoleBinding ι
  now : Int

def Grants.add (g : Grants ι) (b : RoleBinding ι) : Grants ι :=
  { g with bindings := g.bindings ++ [b] }

def Delegation.Allowed (d : Directory ι) (g : Grants ι) (x : Delegation ι) : Prop :=
  ∃ actions, g.permissions x.binding.roleID = some actions ∧
    canDelegateActionsAtScope d g x.delegator actions x.binding.scopeType x.binding.scopeID x.now = .ok true

/-- The delegations that start from one principal: it delegates itself, or someone does who had no
role binding of their own at the start. -/
inductive Chain (d : Directory ι) (start : Grants ι) (first : Principal ι) :
    List (Delegation ι) → Grants ι → Prop where
  | nil : Chain d start first [] start
  | step {xs : List (Delegation ι)} {g : Grants ι} {x : Delegation ι} (hChain : Chain d start first xs g)
      (hAllowed : x.Allowed d g)
      (hFrom : x.delegator = first ∨ x.delegator.academicUnitID = none ∧
        ∀ b ∈ start.bindings, b.userID ≠ x.delegator.userID) :
      Chain d start first (xs ++ [x]) (g.add x.binding)

variable {start : Grants ι} {first : Principal ι} {xs : List (Delegation ι)}

theorem Chain.grants_eq (h : Chain d start first xs g) :
    g.permissions = start.permissions ∧ g.bindings = start.bindings ++ xs.map (·.binding) := by
  induction h with
  | nil => exact ⟨rfl, by simp⟩
  | step hChain hAllow hFrom ih => exact ⟨ih.1, by simp [Grants.add, ih.2]⟩

theorem mem_granting_iff : b ∈ g.granting principal action now ↔
    b ∈ g.bindings ∧ b ∈ (⟨[b], g.permissions⟩ : Grants ι).granting principal action now := by
  simp [Grants.granting, Grants.listActiveByUser, Grants.grants, mem_filter, and_assoc]

theorem accumulateBindingScope_isOk (c : ScopeConstraint ι)
    (h : definition.supportsRoleScope b.scopeType → ∃ resolved, d.resolve b.scope = .ok resolved) :
    ∃ c', accumulateBindingScope d principal definition c b = .ok c' := by
  cases hSupp : definition.supportsRoleScope b.scopeType with
  | false => exact ⟨c, accumulateBindingScope_of_unsupported c hSupp⟩
  | true =>
    obtain ⟨resolved, hRes⟩ := h hSupp
    unfold accumulateBindingScope
    cases hScope : b.scopeType with
    | institution =>
      have hInh : definition.inheritInstitutionScope := by rw [hScope] at hSupp; exact hSupp
      rw [RoleBinding.scope, hScope] at hRes
      simp only [hInh, hRes, Bool.not_true, false_eq_true, if_false, bind, Except.bind]
      cases principal.academicUnitID <;> exact ⟨_, rfl⟩
    | academicUnit =>
      have hInh : definition.inheritAcademicUnitScopes := by rw [hScope] at hSupp; exact hSupp
      rw [RoleBinding.scope, hScope] at hRes
      simp only [hInh, hRes, Bool.not_true, false_eq_true, if_false, bind, Except.bind]
      split <;> exact ⟨_, rfl⟩
    | academicClass =>
      have hAcc : definition.acceptsResource .academicClass := by rw [hScope] at hSupp; exact hSupp
      rw [RoleBinding.scope, hScope] at hRes
      simp only [hAcc, hRes, Bool.not_true, false_eq_true, if_false, bind, Except.bind]
      split <;> exact ⟨_, rfl⟩

theorem foldlM_accumulate_isOk (principal : Principal ι) {bindings : List (RoleBinding ι)}
    (c : ScopeConstraint ι) (h : ∀ b ∈ bindings, definition.supportsRoleScope b.scopeType →
      ∃ resolved, d.resolve b.scope = .ok resolved) :
    ∃ c', bindings.foldlM (accumulateBindingScope d principal definition) c = .ok c' := by
  induction bindings generalizing c with
  | nil => exact ⟨c, rfl⟩
  | cons b rest ih =>
    obtain ⟨next, hNext⟩ := accumulateBindingScope_isOk c (h b (by simp))
    obtain ⟨c', hRest⟩ := ih next fun x hx => h x (by simp [hx])
    exact ⟨c', by rw [foldlM_cons, hNext]; exact hRest⟩

theorem authorizedScopesAt_start (start : Grants ι)
    (hDef : definitionForAction action = some definition)
    (hPerms : g.permissions = start.permissions) (hSub : start.bindings.Sublist g.bindings)
    (hCarries : tokenWithholds principal action definition = false)
    (h : authorizedScopesAt d g principal action t now = .ok c) :
    ∃ c', authorizedScopesAt d start principal action t now = .ok c' := by
  obtain ⟨hValid, hAcc, hColl⟩ := authorizedScopesAt_ok hDef h
  rw [hCarries] at hColl
  obtain ⟨hBound, hFold⟩ := hColl
  have hActive : (start.listActiveByUser principal.userID now).Sublist
      (g.listActiveByUser principal.userID now) := hSub.filter _
  have hGrants : start.grants action = g.grants action := by
    funext b
    rw [Grants.grants, Grants.grants, hPerms]
  have hRes : ∀ b ∈ start.granting principal action now,
      definition.supportsRoleScope b.scopeType → ∃ resolved, d.resolve b.scope = .ok resolved := by
    intro b hb
    refine (foldlM_accumulate_ok hFold).1 b ?_
    rw [Grants.granting, hGrants] at hb
    exact (hActive.filter _).subset hb
  obtain ⟨c', hCollects⟩ := foldlM_accumulate_isOk principal {} hRes
  refine ⟨c', ?_⟩
  have hLen : ¬256 < (start.listActiveByUser principal.userID now).length :=
    not_lt.mpr (le_trans hActive.length_le hBound)
  simp only [authorizedScopesAt, hValid, hDef, hAcc, hCarries, hLen, Bool.not_true,
    false_eq_true, if_false]
  exact hCollects

theorem Chain.gives_first (hCeil : first.academicUnitID = none) (h : Chain d start first xs g)
    {x : Delegation ι} (hx : x ∈ xs)
    (hRole : start.permissions x.binding.roleID = some actions) (hAction : action ∈ actions)
    (hGives : Gives d x.binding action resource) :
    ∃ y ∈ xs, y.delegator = first ∧ can d start first action resource y.now = .ok true := by
  induction h generalizing x actions with
  | nil => cases hx
  | @step xs g last hChain hAllow hFrom ih =>
    obtain ⟨hPerms, hBindings⟩ := hChain.grants_eq
    rcases mem_append.mp hx with hx | hx
    · obtain ⟨y, hy, hFirst⟩ := ih hx hRole hAction hGives
      exact ⟨y, mem_append_left _ hy, hFirst⟩
    obtain rfl := mem_singleton.mp hx
    obtain ⟨actions', hRole', hDelegates⟩ := hAllow
    rw [hPerms, hRole, Option.some.injEq] at hRole'
    subst hRole'
    have hNone : x.delegator.academicUnitID = none := by
      rcases hFrom with hFirst | ⟨hNone, -⟩
      · rw [hFirst, hCeil]
      · exact hNone
    obtain ⟨definition, c, held, hDef, hBound, hScopes, hCarries, hHeld, hHeldGives⟩ :=
      held_of_canDelegate hNone hDelegates hAction hGives
    obtain ⟨hMem, hActive⟩ := mem_granting_iff.mp hHeld
    obtain ⟨hIn, hGrants⟩ := mem_filter.mp hHeld
    rw [hBindings] at hMem
    rcases mem_append.mp hMem with hOwn | hAdded
    · -- a binding from the start: only the first principal can hold it
      have hUser : held.userID = x.delegator.userID := by
        have hSel := (mem_filter.mp hIn).2
        simp only [and_eq_true, decide_eq_true_eq] at hSel
        exact hSel.1.1.1
      rcases hFrom with rfl | ⟨-, hNoOwn⟩
      · refine ⟨x, mem_append_right _ (by simp), rfl, ?_⟩
        obtain ⟨c', hStart⟩ := authorizedScopesAt_start start hDef hPerms
          (by rw [hBindings]; exact sublist_append_left _ _) hCarries hScopes
        refine can_of_gives hCeil hDef hBound hStart hCarries ?_ hHeldGives
        rw [hPerms] at hActive
        exact mem_granting_iff.mpr ⟨hOwn, hActive⟩
      · exact absurd hUser (hNoOwn held hOwn)
    · -- a binding of the chain: what it gives was already traced back
      obtain ⟨earlier, hEarlier, hSame⟩ := mem_map.mp hAdded
      have hCarried : ∃ held', start.permissions earlier.binding.roleID = some held' ∧ action ∈ held' := by
        unfold Grants.grants at hGrants
        rw [hSame, ← hPerms]
        split at hGrants
        · cases hGrants
        · next permissions hRoleOf => exact ⟨permissions, hRoleOf, contains_iff_mem.mp hGrants⟩
      obtain ⟨held', hRoleOf, hIncludes⟩ := hCarried
      obtain ⟨y, hy, hFirst⟩ := ih hEarlier hRoleOf hIncludes (hSame ▸ hHeldGives)
      exact ⟨y, mem_append_left _ hy, hFirst⟩

/-- Delegation does not escalate, over the resources whose type the action accepts. -/
theorem delegation_gives_nothing_new (d : Directory ι) :
    (∀ (g : Grants ι) (principal : Principal ι) (actions : List Action) (b : RoleBinding ι) (now : Int),
      principal.academicUnitID = none →
      canDelegateActionsAtScope d g principal actions b.scopeType b.scopeID now = .ok true →
      ∀ action ∈ actions,
        (∀ resource, Gives d b action resource → can d g principal action resource now = .ok true) ∧
        (protectedDelegationAction action = true → b.scopeType ≠ .institution →
          ∃ held ∈ g.granting principal action now,
            StrictlyAbove d held (roleScopeResource b.scopeType b.scopeID))) ∧
    (∀ (start g : Grants ι) (first : Principal ι) (xs : List (Delegation ι)),
      first.academicUnitID = none → Chain d start first xs g →
      ∀ x ∈ xs, ∀ actions, start.permissions x.binding.roleID = some actions → ∀ action ∈ actions,
        ∀ resource, Gives d x.binding action resource →
          ∃ y ∈ xs, y.delegator = first ∧ can d start first action resource y.now = .ok true) := by
  constructor
  · intro g principal actions b now hCeil h action hAction
    refine ⟨fun resource hGives => ?_, fun hProtected hScope => ?_⟩
    · obtain ⟨definition, c, held, hDef, hBound, hScopes, hCarries, hHeld, hHeldGives⟩ :=
        held_of_canDelegate hCeil h hAction hGives
      exact can_of_gives hCeil hDef hBound hScopes hCarries hHeld hHeldGives
    · exact strictlyAbove_of_canDelegate hCeil h hAction hProtected hScope
  · intro start g first xs hCeil hChain x hx actions hRole action hAction resource hGives
    exact hChain.gives_first hCeil hx hRole hAction hGives

/-- Role 5, which views Exams, held by user 9 at the Institution. -/
def viewingExamsEverywhere : Grants Nat where
  bindings := [⟨9, 5, .institution, 0, 0, some 100, false⟩]
  permissions
    | 5 => some [.examView]
    | _ => none

def facultyDelegation : Delegation Nat :=
  ⟨examToken none, ⟨8, 5, .academicUnit, 1, 0, none, false⟩, 10⟩

def departmentDelegation : Delegation Nat :=
  ⟨⟨8, true, .sessionAccess, [], none⟩, ⟨6, 5, .academicUnit, 2, 0, none, false⟩, 20⟩

/-- User 9 hands the role to user 8 at the faculty, and user 8 to user 6 at the department. -/
def examDelegations : List (Delegation Nat) :=
  [facultyDelegation, departmentDelegation]

theorem examDelegations_chain :
    ∃ g, Chain faculty viewingExamsEverywhere (examToken none) examDelegations g := by
  have hFaculty : Chain faculty viewingExamsEverywhere (examToken none) [facultyDelegation]
      (viewingExamsEverywhere.add facultyDelegation.binding) :=
    Chain.step (x := facultyDelegation) .nil ⟨[.examView], rfl, rfl⟩ (.inl rfl)
  have hOther : ∀ b ∈ viewingExamsEverywhere.bindings, b.userID ≠ departmentDelegation.delegator.userID := by
    decide
  exact ⟨_, Chain.step (x := departmentDelegation) hFaculty ⟨[.examView], rfl, rfl⟩ (.inr ⟨rfl, hOther⟩)⟩

theorem delegation_gives_nothing_new_exams :
    can faculty viewingExamsEverywhere (examToken none) .examView ⟨.exam, 7⟩ 10 = .ok true ∧
      ∃ y ∈ examDelegations, y.delegator = examToken none ∧
        can faculty viewingExamsEverywhere (examToken none) .examView ⟨.exam, 7⟩ y.now = .ok true := by
  obtain ⟨hOne, hAll⟩ := delegation_gives_nothing_new faculty
  obtain ⟨g, hChain⟩ := examDelegations_chain
  constructor
  · exact (hOne viewingExamsEverywhere (examToken none) [.examView] ⟨8, 5, .academicUnit, 1, 0, none, false⟩
      10 rfl rfl .examView (by simp)).1 ⟨.exam, 7⟩ ⟨examViewDefinition, _, rfl, rfl, rfl, rfl⟩
  exact hAll viewingExamsEverywhere g (examToken none) examDelegations rfl hChain _
    (mem_cons_of_mem _ mem_cons_self) [.examView] rfl .examView (by simp) ⟨.exam, 7⟩
    ⟨examViewDefinition, _, rfl, rfl, rfl, rfl⟩

/-- A role binding at the Institution also applies to a user, which viewing an Exam does not accept:
no request of that kind is ever allowed. -/
theorem delegated_binding_applies_beyond_type :
    canDelegateActionsAtScope faculty viewingExamsEverywhere (examToken none) [.examView] .institution 0 10 =
        .ok true ∧ faculty.resolve ⟨.user, 4⟩ = .ok ⟨some 0, [], none, none, false⟩ ∧
      roleBindingApplies (⟨8, 5, .institution, 0, 0, none, false⟩ : RoleBinding Nat) .examView
        examViewDefinition ⟨.user, 4⟩ ⟨some 0, [], none, none, false⟩ = true ∧
      can faculty viewingExamsEverywhere (examToken none) .examView ⟨.user, 4⟩ 10 = .error .requestInvalid :=
  ⟨rfl, rfl, rfl, rfl⟩

end Proctor.Access
