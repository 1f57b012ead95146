import Proctor.Access.Actions
import Proctor.Fallible.Basic
import Proctor.Hierarchy.Forest

/-! # The academic directory and the resolution of resources

What `accessScopeResolver` reads, and the Institution, the Academic Units and the Class it resolves a
resource to. The stores answer here; an identifier is any value of the identifier type. -/
namespace Proctor.Access

open Fallible Hierarchy List

inductive AccessError where
  | invalidToken
  | requestInvalid
  | notFound (resource : String)
  | unavailable
  deriving DecidableEq, Repr

structure AcademicUnit (ι : Type) where
  institutionID : ι
  parentID : Option ι
  archived : Bool
  deriving DecidableEq, Repr

structure Programme (ι : Type) where
  academicUnitID : ι
  archived : Bool

structure ProgrammeLevel (ι : Type) where
  programmeID : ι
  archived : Bool

inductive PeriodOwner (ι : Type) where
  | institution (id : ι)
  | academicUnit (id : ι)

structure AcademicPeriod (ι : Type) where
  owner : PeriodOwner ι
  archived : Bool

structure Class (ι : Type) where
  programmeLevelID : ι
  academicPeriodID : ι
  archived : Bool

/-- The stored academic structure. At most one Institution is unarchived and it owns the unarchived
Academic Units; the parent links have no cycle. -/
structure Directory (ι : Type) where
  institution : Option ι
  units : ι → Option (AcademicUnit ι)
  programmes : ι → Option (Programme ι)
  programmeLevels : ι → Option (ProgrammeLevel ι)
  academicPeriods : ι → Option (AcademicPeriod ι)
  classes : ι → Option (Class ι)
  exams : ι → Option ι
  sittings : ι → Option ι
  submissions : ι → Option ι
  activeUsers : ι → Bool
  depth : ι → Nat
  acyclic : ∀ i u p, units i = some u → u.parentID = some p → depth p < depth i
  owned : ∀ i u owner, units i = some u → u.archived = false → institution = some owner →
    u.institutionID = owner

structure Resource (ι : Type) where
  type : ResourceType
  id : ι

/-- `resolvedAuthorizationResource`; `none` is the zero identifier. -/
structure ResolvedResource (ι : Type) where
  institutionID : Option ι := none
  academicUnitIDs : List ι := []
  targetAcademicUnitID : Option ι := none
  classID : Option ι := none
  academicPeriodInstitutionOwned : Bool := false

namespace Directory

variable {ι : Type} (d : Directory ι)

def liveUnits : Forest ι (AcademicUnit ι) where
  node i := (d.units i).filter fun u => !u.archived
  parent u := u.parentID
  depth := d.depth
  climbs i u p hNode hParent := d.acyclic i u p (Option.filter_eq_some_iff.mp hNode).1 hParent

/-- `ListAncestors`: the unit and each parent, up to the root or an archived one. -/
def listAncestors (id : ι) : List (ι × AcademicUnit ι) :=
  (d.liveUnits.chain id).filterMap fun i => (d.units i).map fun u => (i, u)

def applyScopeAncestors (resolved : ResolvedResource ι) (units : List (ι × AcademicUnit ι)) (target : ι)
    (notFoundResource : String) : Except AccessError (ResolvedResource ι) :=
  if units.any fun u => u.2.archived then .error (.notFound notFoundResource)
  else .ok { resolved with
    institutionID := units.head?.map fun u => u.2.institutionID
    targetAcademicUnitID := some target
    academicUnitIDs := units.map fun u => u.1 }

def resolveAcademicUnitScope (resolved : ResolvedResource ι) (academicUnitID : ι)
    (lookupResource notFoundResource : String) : Except AccessError (ResolvedResource ι) :=
  if (d.listAncestors academicUnitID).isEmpty then .error (.notFound lookupResource)
  else applyScopeAncestors resolved (d.listAncestors academicUnitID) academicUnitID notFoundResource

variable [DecidableEq ι]

def resolveInstitution (id : ι) : Except AccessError (ResolvedResource ι) :=
  if d.institution = some id then .ok { institutionID := some id } else .error (.notFound "institution")

def resolveAcademicPeriod (id : ι) : Except AccessError (ResolvedResource ι) :=
  match (d.academicPeriods id).filter fun p => !p.archived with
  | none => .error (.notFound "academic_period")
  | some period => match period.owner with
    | .institution owner =>
      if d.institution = some owner then
        .ok { institutionID := some owner, academicPeriodInstitutionOwned := true }
      else .error (.notFound "academic_period_institution")
    | .academicUnit owner =>
      d.resolveAcademicUnitScope {} owner "academic_period_academic_unit" "academic_period"

def live {ρ : Type} (row : Option ρ) (archived : ρ → Bool) (resource : String) : Except AccessError ρ :=
  match row with
  | none => .error (.notFound resource)
  | some r => if archived r then .error (.notFound resource) else .ok r

def resolveProgramme (id : ι) : Except AccessError (ResolvedResource ι) := do
  let programme ← live (d.programmes id) (·.archived) "programme"
  d.resolveAcademicUnitScope {} programme.academicUnitID "programme_academic_unit" "programme"

def resolveProgrammeLevel (id : ι) : Except AccessError (ResolvedResource ι) := do
  let level ← live (d.programmeLevels id) (·.archived) "programme_level"
  let programme ← live (d.programmes level.programmeID) (·.archived) "programme_level_programme"
  d.resolveAcademicUnitScope {} programme.academicUnitID "programme_level_academic_unit" "programme_level"

/-- `GetAcademicUnitID`: through an unarchived Programme Level and Programme. -/
def classAcademicUnitID (c : Class ι) : Except AccessError ι := do
  let level ← live (d.programmeLevels c.programmeLevelID) (·.archived) "class"
  let programme ← live (d.programmes level.programmeID) (·.archived) "class"
  .ok programme.academicUnitID

def checkClassPeriod (resolved : ResolvedResource ι) (c : Class ι) : Except AccessError Unit :=
  match d.resolveAcademicPeriod c.academicPeriodID with
  | .error (.notFound _) => .error (.notFound "class")
  | .error e => .error e
  | .ok period =>
    if period.institutionID ≠ resolved.institutionID then .error (.notFound "class")
    else if !period.academicPeriodInstitutionOwned &&
        !(resolved.academicUnitIDs.any fun id => period.targetAcademicUnitID = some id) then
      .error (.notFound "class")
    else .ok ()

def resolveClass (id : ι) : Except AccessError (ResolvedResource ι) := do
  let c ← live (d.classes id) (·.archived) "class"
  let academicUnitID ← d.classAcademicUnitID c
  let resolved ← d.resolveAcademicUnitScope { classID := some id } academicUnitID "class_academic_unit" "class"
  d.checkClassPeriod resolved c
  .ok resolved

def resolveExam (id : ι) : Except AccessError (ResolvedResource ι) :=
  match d.exams id with
  | none => .error (.notFound "exam")
  | some unit => d.resolveAcademicUnitScope {} unit "exam_academic_unit" "exam"

def resolveExamSitting (id : ι) : Except AccessError (ResolvedResource ι) :=
  match d.sittings id with
  | none => .error (.notFound "exam_sitting")
  | some exam => match d.exams exam with
    | none => .error (.notFound "exam_sitting_exam")
    | some unit => d.resolveAcademicUnitScope {} unit "exam_sitting_academic_unit" "exam_sitting"

def resolveSubmission (id : ι) : Except AccessError (ResolvedResource ι) :=
  match d.submissions id with
  | none => .error (.notFound "submission")
  | some unit => d.resolveAcademicUnitScope {} unit "submission_academic_unit" "submission"

def resolveUser (id : ι) : Except AccessError (ResolvedResource ι) :=
  if d.activeUsers id then
    match d.institution with
    | none => .error (.notFound "institution")
    | some institution => .ok { institutionID := some institution }
  else .error (.notFound "user")

def resolve (resource : Resource ι) : Except AccessError (ResolvedResource ι) :=
  match resource.type with
  | .institution => d.resolveInstitution resource.id
  | .academicUnit => d.resolveAcademicUnitScope {} resource.id "academic_unit" "academic_unit"
  | .academicPeriod => d.resolveAcademicPeriod resource.id
  | .programme => d.resolveProgramme resource.id
  | .programmeLevel => d.resolveProgrammeLevel resource.id
  | .academicClass => d.resolveClass resource.id
  | .exam => d.resolveExam resource.id
  | .examSitting => d.resolveExamSitting resource.id
  | .submission => d.resolveSubmission resource.id
  | .user => d.resolveUser resource.id
  | .mailDelivery => .error .requestInvalid

/-! ### What a unit's resource resolves to -/

section
omit [DecidableEq ι]
variable {d}

theorem mem_chain_live {i j : ι} (h : j ∈ d.liveUnits.chain i) :
    ∃ u, d.units j = some u ∧ u.archived = false := by
  obtain ⟨u, hNode⟩ := Forest.node_of_mem_chain h
  obtain ⟨hUnit, hLive⟩ := Option.filter_eq_some_iff.mp hNode
  exact ⟨u, hUnit, by simpa using hLive⟩

theorem listAncestors_ids (id : ι) : (d.listAncestors id).map (·.1) = d.liveUnits.chain id := by
  unfold listAncestors
  rw [map_filterMap]
  conv_rhs => rw [← filterMap_some (l := d.liveUnits.chain id)]
  refine filterMap_congr fun i hi => ?_
  obtain ⟨u, hUnit, -⟩ := mem_chain_live hi
  rw [hUnit]
  rfl

theorem listAncestors_live (id : ι) : (d.listAncestors id).any (fun u => u.2.archived) = false := by
  rw [any_eq_false]
  intro u hu
  obtain ⟨i, hi, hu⟩ := mem_filterMap.mp hu
  obtain ⟨unit, hUnit, hLive⟩ := mem_chain_live hi
  rw [hUnit, Option.map_some, Option.some.injEq] at hu
  subst hu
  simpa using hLive

variable {lookupResource notFoundResource : String} {unit : ι}

theorem resolveAcademicUnitScope_ok {start resolved : ResolvedResource ι}
    (h : d.resolveAcademicUnitScope start unit lookupResource notFoundResource = .ok resolved) :
    unit ∈ d.liveUnits.chain unit ∧ resolved = { start with
      institutionID := (d.listAncestors unit).head?.map fun u => u.2.institutionID
      targetAcademicUnitID := some unit
      academicUnitIDs := d.liveUnits.chain unit } := by
  obtain ⟨hSome, h⟩ := guard_ok h
  unfold applyScopeAncestors at h
  rw [listAncestors_live, listAncestors_ids] at h
  refine ⟨?_, (Except.ok.inj h).symm⟩
  cases hNode : d.liveUnits.node unit with
  | some u => exact Forest.self_mem_chain hNode
  | none =>
    refine absurd ?_ hSome
    rw [← isEmpty_map (f := fun u : ι × AcademicUnit ι => u.1), listAncestors_ids,
      Forest.chain_of_none hNode]
    rfl

theorem resolveAcademicUnitScope_isOk {start : ResolvedResource ι} (hLive : unit ∈ d.liveUnits.chain unit) :
    (d.resolveAcademicUnitScope start unit lookupResource notFoundResource).isOk := by
  have hSome : ¬(d.listAncestors unit).isEmpty := by
    rw [← isEmpty_map (f := fun u : ι × AcademicUnit ι => u.1), listAncestors_ids]
    intro hEmpty
    rw [List.isEmpty_iff.mp hEmpty] at hLive
    cases hLive
  unfold resolveAcademicUnitScope applyScopeAncestors
  rw [if_neg hSome, listAncestors_live]
  rfl

theorem head_institution {institution : ι} (hInst : d.institution = some institution)
    (hLive : unit ∈ d.liveUnits.chain unit) :
    (d.listAncestors unit).head?.map (fun u => u.2.institutionID) = some institution := by
  cases hList : d.listAncestors unit with
  | nil =>
    have hIds := listAncestors_ids (d := d) unit
    rw [hList] at hIds
    rw [← hIds] at hLive
    cases hLive
  | cons u rest =>
    have hHead : u ∈ d.listAncestors unit := hList ▸ mem_cons_self
    obtain ⟨i, hi, hu⟩ := mem_filterMap.mp hHead
    obtain ⟨row, hUnit, hRow⟩ := mem_chain_live hi
    rw [hUnit, Option.map_some, Option.some.injEq] at hu
    subst hu
    exact congrArg some (d.owned i row institution hUnit hRow hInst)

end

variable {d : Directory ι} {resolved : ResolvedResource ι} {resource : Resource ι}

theorem resolve_ok (h : d.resolve resource = .ok resolved) :
    resolved.classID = (if resource.type = .academicClass then some resource.id else none) ∧
      ((resource.type.unitOwned = false ∧ resolved.academicUnitIDs = [] ∧
          resolved.academicPeriodInstitutionOwned = (resource.type == .academicPeriod) ∧
          resolved.institutionID = d.institution) ∨
        ∃ unit, unit ∈ d.liveUnits.chain unit ∧ resolved.academicUnitIDs = d.liveUnits.chain unit ∧
          resolved.institutionID = (d.listAncestors unit).head?.map (fun u => u.2.institutionID) ∧
          resolved.academicPeriodInstitutionOwned = false) := by
  have hScope {unit : ι} {lookupResource notFoundResource : String}
      (h : d.resolveAcademicUnitScope {} unit lookupResource notFoundResource = .ok resolved) :
      resolved.classID = none ∧ ∃ unit, unit ∈ d.liveUnits.chain unit ∧
        resolved.academicUnitIDs = d.liveUnits.chain unit ∧
        resolved.institutionID = (d.listAncestors unit).head?.map (fun u => u.2.institutionID) ∧
        resolved.academicPeriodInstitutionOwned = false := by
    obtain ⟨hLive, rfl⟩ := resolveAcademicUnitScope_ok h
    exact ⟨rfl, unit, hLive, rfl, rfl, rfl⟩
  obtain ⟨type, id⟩ := resource
  cases type with
  | academicUnit =>
    exact (hScope h).imp_right .inr
  | programme =>
    obtain ⟨programme, -, h⟩ := bind_ok h
    exact (hScope h).imp_right .inr
  | programmeLevel =>
    obtain ⟨level, -, h⟩ := bind_ok h
    obtain ⟨programme, -, h⟩ := bind_ok h
    exact (hScope h).imp_right .inr
  | academicClass =>
    obtain ⟨c, -, h⟩ := bind_ok h
    obtain ⟨unit, -, h⟩ := bind_ok h
    obtain ⟨r, hRes, h⟩ := bind_ok h
    obtain ⟨-, -, h⟩ := bind_ok h
    cases h
    obtain ⟨hLive, rfl⟩ := resolveAcademicUnitScope_ok hRes
    exact ⟨rfl, .inr ⟨unit, hLive, rfl, rfl, rfl⟩⟩
  | exam =>
    simp only [resolve, resolveExam] at h
    split at h
    · cases h
    · exact (hScope h).imp_right .inr
  | academicPeriod =>
    simp only [resolve, resolveAcademicPeriod] at h
    split at h
    · cases h
    split at h
    · split at h
      next hSame =>
        cases h
        exact ⟨rfl, .inl ⟨rfl, rfl, rfl, hSame.symm⟩⟩
      · cases h
    · exact (hScope h).imp_right .inr
  | examSitting =>
    simp only [resolve, resolveExamSitting] at h
    split at h
    · cases h
    split at h
    · cases h
    · exact (hScope h).imp_right .inr
  | submission =>
    simp only [resolve, resolveSubmission] at h
    split at h
    · cases h
    · exact (hScope h).imp_right .inr
  | institution =>
    simp only [resolve, resolveInstitution] at h
    split at h
    next hSame =>
      cases h
      exact ⟨rfl, .inl ⟨rfl, rfl, rfl, hSame.symm⟩⟩
    · cases h
  | user =>
    simp only [resolve, resolveUser] at h
    split at h
    · split at h
      · cases h
      next hSame =>
        cases h
        exact ⟨rfl, .inl ⟨rfl, rfl, rfl, hSame.symm⟩⟩
    · cases h
  | mailDelivery => cases h

theorem resolve_institutionID {institution : ι} (hInst : d.institution = some institution)
    (h : d.resolve resource = .ok resolved) : resolved.institutionID = some institution := by
  obtain ⟨-, ⟨-, -, -, hSame⟩ | ⟨unit, hLive, -, hHead, -⟩⟩ := resolve_ok h
  · rw [hSame, hInst]
  · rw [hHead, head_institution hInst hLive]

theorem resolve_unitOwned
    (hOwned : resource.type.unitOwned) (h : d.resolve resource = .ok resolved) :
    ∃ unit, unit ∈ d.liveUnits.chain unit ∧ resolved.academicUnitIDs = d.liveUnits.chain unit ∧
      resolved.institutionID = (d.listAncestors unit).head?.map (fun u => u.2.institutionID) ∧
      resolved.classID = (if resource.type = .academicClass then some resource.id else none) ∧
      resolved.academicPeriodInstitutionOwned = false := by
  obtain ⟨hClass, ⟨hNotOwned, -⟩ | ⟨unit, hLive, hUnits, hInst, hPeriod⟩⟩ := resolve_ok h
  · rw [hOwned] at hNotOwned
    cases hNotOwned
  · exact ⟨unit, hLive, hUnits, hInst, hClass, hPeriod⟩

theorem resolve_academicUnit_isOk {unit : ι} (h : d.resolve resource = .ok resolved)
    (hUnit : unit ∈ resolved.academicUnitIDs) : (d.resolve ⟨.academicUnit, unit⟩).isOk := by
  obtain ⟨-, ⟨-, hNone, -⟩ | ⟨owner, -, hUnits, -, -⟩⟩ := resolve_ok h
  · rw [hNone] at hUnit
    cases hUnit
  rw [hUnits] at hUnit
  obtain ⟨u, hNode⟩ := Forest.node_of_mem_chain hUnit
  exact resolveAcademicUnitScope_isOk (Forest.self_mem_chain hNode)

end Directory

end Proctor.Access
