import Proctor.Fallible.Basic
import Proctor.Hierarchy.Forest
import Proctor.Keyed.Table
import Proctor.Sql.Recursive
import Proctor.Transition.Basic

/-! # Academic Units

Model of the writers of `academic_units` in `academic_unit_store.go`, each one transaction under the
hierarchy lock, and of the recursive queries over the table. What the audit event, the other tables and
their foreign keys decide is one input. A depth that decreases from a live unit to its parent is kept by
every writer, so that the live units are a forest. -/
namespace Proctor.AcademicUnits

open Keyed Fallible List Option
open Hierarchy (Forest)
open Sql (recursiveRows)
open Transition (Reaches)

inductive Fault where
  | invalidInput (field : String)
  | invalidPersistedState (field : String)
  | reference (constraint : String)
  | conflict (reason : String)
  | notFound
  /-- A query that does not end. -/
  | unending
  /-- The audit event, another table or a constraint. -/
  | refused
  deriving DecidableEq, Repr

/-- A unit and its row; `parentID` is none for the zero identifier. Times are microseconds. -/
structure AcademicUnit (ι : Type) where
  id : ι
  createdAt : Nat
  updatedAt : Nat
  archivedAt : Option Nat
  revision : Int
  institutionID : ι
  parentID : Option ι
  name : String
  displayName : String
  description : String
  deriving DecidableEq, Repr

def AcademicUnit.live {ι : Type} (u : AcademicUnit ι) : Bool := u.archivedAt.isNone

/-- The forms of identifiers and names; `validateNamed` names the field that it refuses. -/
structure Formats (ι : Type) where
  isValid : ι → Bool
  validateNamed : String → String → String → Option String

abbrev Database (ι : Type) := Table fun u : AcademicUnit ι => u.id

section Store

variable {ι : Type} [DecidableEq ι] (f : Formats ι)

/-- The field that is refused first. -/
def AcademicUnit.validate (u : AcademicUnit ι) : Option String :=
  if !f.isValid u.id then some "id"
  else if u.createdAt = 0 then some "created_at"
  else if u.updatedAt = 0 ∨ u.updatedAt < u.createdAt then some "updated_at"
  else if !f.isValid u.institutionID then some "institution_id"
  else if u.parentID.any fun p => !f.isValid p || p = u.id then some "parent_id"
  else if u.revision < 0 then some "revision"
  else if u.archivedAt.any fun t => t < u.createdAt then some "archived_at"
  else f.validateNamed u.name u.displayName u.description

/-- `academicUnitRow.model`. -/
def model (u : AcademicUnit ι) : Except Fault (AcademicUnit ι) :=
  match u.validate f with
  | none => .ok u
  | some field => .error (.invalidPersistedState field)

def children (db : Database ι) (id : ι) : List (AcademicUnit ι) :=
  db.rows.filter fun u => u.parentID = some id && u.live

def descendants (db : Database ι) (id : ι) : Option (List (AcademicUnit ι)) :=
  recursiveRows (fun parent => children db parent.id) (db.rows.length + 1) (children db id)

def parents (db : Database ι) (u : AcademicUnit ι) : List (AcademicUnit ι) :=
  db.rows.filter fun parent => u.parentID = some parent.id && parent.live

/-- The rounds are the depths that the query orders by. -/
def listAncestors (db : Database ι) (id : ι) : Except Fault (List (AcademicUnit ι)) :=
  match recursiveRows (parents db) (db.rows.length + 1) (db.rows.filter fun u => u.id = id && u.live) with
  | none => .error .unending
  | some [] => .error .notFound
  | some rows => rows.mapM (model f)

def validateAcademicUnitParent (db : Database ι) (unitID institutionID : ι) :
    Option ι → Except Fault Unit
  | none => .ok ()
  | some parentID => match (db.find parentID).filter (·.live) with
    | none => .error .notFound
    | some parent =>
      if parent.institutionID ≠ institutionID then .error (.reference "academic_units_parent_same_institution")
      else match descendants db unitID with
        | none => .error .unending
        | some rows =>
          if rows.any fun u => u.id = parentID then .error (.conflict "academic_units_acyclic") else .ok ()

/-- The unique index over the names of the live units of an institution. -/
def nameTaken (db : Database ι) (u : AcademicUnit ι) : Bool :=
  u.live && db.rows.any fun v => v.live && v.id ≠ u.id && v.institutionID = u.institutionID && v.name = u.name

def createAcademicUnit (db : Database ι) (candidate : AcademicUnit ι) (refused : Bool) :
    Except Fault (Database ι) :=
  match candidate.validate f with
  | some field => .error (.invalidInput field)
  | none => do
    validateAcademicUnitParent db candidate.id candidate.institutionID candidate.parentID
    if candidate.revision ≤ 0 ∨ nameTaken db candidate ∨ refused then .error .refused
    else match db.insert candidate with
      | none => .error (.conflict "academic_units_pkey")
      | some db => .ok db

/-- The columns that an update sets. -/
def AcademicUnit.updated (row candidate : AcademicUnit ι) : AcademicUnit ι :=
  { row with
    updatedAt := candidate.updatedAt
    revision := candidate.revision
    parentID := candidate.parentID
    name := candidate.name
    displayName := candidate.displayName
    description := candidate.description }

def updateAcademicUnit (db : Database ι) (candidate : AcademicUnit ι) (refused : Bool) :
    Except Fault (Database ι) :=
  match candidate.validate f with
  | some field => .error (.invalidInput field)
  | none => do
    validateAcademicUnitParent db candidate.id candidate.institutionID candidate.parentID
    match (db.find candidate.id).filter (·.live) with
    | none => .error .notFound
    | some row =>
      if row.institutionID ≠ candidate.institutionID then .error .notFound
      else if row.revision ≠ candidate.revision - 1 then .error (.conflict "academic_unit_changed")
      else if candidate.updatedAt < row.createdAt ∨ nameTaken db (row.updated candidate) ∨ refused then
        .error .refused
      else .ok (db.set (row.updated candidate))

structure AcademicUnitArchive (ι : Type) where
  id : ι
  archiveAt : Nat
  expectedRevision : Int

def AcademicUnit.archived (row : AcademicUnit ι) (t : Nat) : AcademicUnit ι :=
  { row with
    updatedAt := max row.updatedAt t
    archivedAt := some (max row.createdAt t)
    revision := row.revision + 1 }

/-- `dependent` says whether a live row of another table refers to the unit. -/
def archiveAcademicUnit (db : Database ι) (input : AcademicUnitArchive ι) (dependent refused : Bool) :
    Except Fault (Database ι) :=
  if !f.isValid input.id ∨ input.archiveAt = 0 ∨ input.expectedRevision < 0 then .error (.invalidInput "archive")
  else match (db.find input.id).filter (·.live) with
    | none => .error .notFound
    | some row => do
      let current ← model f row
      if 0 < input.expectedRevision ∧ input.expectedRevision ≠ current.revision then
        .error (.conflict "revision_mismatch")
      else if !(children db input.id).isEmpty ∨ dependent then
        .error (.conflict "academic_unit_has_active_dependents")
      else if 2 ^ 63 ≤ current.revision + 1 ∨ refused then .error .refused
      else do
        let _ ← model f (row.archived input.archiveAt)
        pure (db.set (row.archived input.archiveAt))

inductive Operation (ι : Type) where
  | create (unit : AcademicUnit ι) (refused : Bool)
  | update (unit : AcademicUnit ι) (refused : Bool)
  | archive (input : AcademicUnitArchive ι) (dependent refused : Bool)

def execute (db : Database ι) : Operation ι → Except Fault (Database ι)
  | .create unit refused => createAcademicUnit f db unit refused
  | .update unit refused => updateAcademicUnit f db unit refused
  | .archive input dependent refused => archiveAcademicUnit f db input dependent refused

def step (db : Database ι) (op : Operation ι) : Option (Database ι) := (execute f db op).toOption

end Store

section Forest

variable {ι : Type} [DecidableEq ι] {f : Formats ι} {db db' : Database ι} {depth : ι → Nat}

/-- The live units have live parents of their institution, and a depth decreases along the links. -/
structure Rooted (f : Formats ι) (db : Database ι) (depth : ι → Nat) : Prop where
  valid : ∀ u ∈ db.rows, u.validate f = none
  parent : ∀ u ∈ db.rows, u.live → ∀ p, u.parentID = some p →
    ∃ q ∈ db.rows, q.live ∧ q.id = p ∧ q.institutionID = u.institutionID
  climbs : ∀ u ∈ db.rows, u.live → ∀ p, u.parentID = some p → depth p < depth u.id

variable {u new : AcademicUnit ι} {refused : Bool}

theorem find_live {i : ι} : (db.find i).filter (·.live) = some u ↔ u ∈ db.rows ∧ u.id = i ∧ u.live := by
  rw [filter_eq_some_iff, Table.find_eq_some_iff, and_assoc]

def Rooted.forest (h : Rooted f db depth) : Forest ι (AcademicUnit ι) where
  node i := (db.find i).filter (·.live)
  parent := AcademicUnit.parentID
  depth := depth
  climbs := by
    intro i u p hNode hParent
    obtain ⟨hu, rfl, hLive⟩ := find_live.mp hNode
    exact h.climbs u hu hLive p hParent

theorem mem_children {i : ι} : u ∈ children db i ↔ u ∈ db.rows ∧ u.parentID = some i ∧ u.live := by
  rw [children, mem_filter, Bool.and_eq_true, decide_eq_true_eq]

theorem validate_eq_none : u.validate f = none ↔ f.isValid u.id ∧ u.createdAt ≠ 0 ∧
    u.updatedAt ≠ 0 ∧ u.createdAt ≤ u.updatedAt ∧ f.isValid u.institutionID ∧
    (∀ p, u.parentID = some p → f.isValid p ∧ p ≠ u.id) ∧ 0 ≤ u.revision ∧
    (∀ t, u.archivedAt = some t → u.createdAt ≤ t) ∧ f.validateNamed u.name u.displayName u.description =
    none := by
  simp only [AcademicUnit.validate, ite_eq_iff, reduceCtorEq, and_false, false_or]
  cases u.parentID <;> cases u.archivedAt <;> simp [and_assoc]

/-- What the check of a parent says of it. -/
structure Placed (db : Database ι) (u : AcademicUnit ι) (p : ι) : Prop where
  other : p ≠ u.id
  parent : ∃ q ∈ db.rows, q.live ∧ q.id = p ∧ q.institutionID = u.institutionID
  acyclic : ∃ rows, descendants db u.id = some rows ∧ ∀ d ∈ rows, d.id ≠ p

theorem placed_of_ok (hValid : u.validate f = none)
    (h : validateAcademicUnitParent db u.id u.institutionID u.parentID = .ok ()) :
    ∀ p, u.parentID = some p → Placed db u p := by
  intro p hPar
  rw [hPar, validateAcademicUnitParent] at h
  split at h
  · cases h
  next q hFind =>
  obtain ⟨hq, rfl, hLive⟩ := find_live.mp hFind
  obtain ⟨hSame, h⟩ := guard_ok h
  split at h
  · cases h
  next rows hRows =>
  obtain ⟨hNone, -⟩ := guard_ok h
  refine ⟨?_, ⟨q, hq, hLive, rfl, not_not.mp hSame⟩, rows, hRows, fun d hd hId => hNone ?_⟩
  · exact ((validate_eq_none.mp hValid).2.2.2.2.2.1 q.id hPar).2
  · exact any_eq_true.mpr ⟨d, hd, decide_eq_true hId⟩

/-- A unit that is checked for a parent is not above it. -/
theorem Placed.not_mem_chain (h : Rooted f db depth) {p : ι} (hPlaced : Placed db u p) :
    u.id ∉ h.forest.chain p := by
  obtain ⟨rows, hRows, hNone⟩ := hPlaced.acyclic
  obtain ⟨hBase, hClosed⟩ := Sql.recursiveRows_closed hRows
  have hBelow : ∀ i n, h.forest.node i = some n → u.id ∈ h.forest.chain i → i ≠ u.id → n ∈ rows := by
    intro i
    induction i using Forest.induction (f := h.forest) with
    | hStep i ih =>
      intro n hNode hMem hOther
      obtain ⟨n', hNode', rfl | ⟨p, hPar, hMem⟩⟩ := Forest.mem_chain_iff.mp hMem
      · exact absurd rfl hOther
      cases hNode.symm.trans hNode'
      obtain ⟨hn, -, hLive⟩ := find_live.mp hNode
      by_cases hp : p = u.id
      · exact hBase (mem_children.mpr ⟨hn, hp ▸ hPar, hLive⟩)
      obtain ⟨m, hm, -⟩ := Forest.mem_chain_iff.mp hMem
      have hId : m.id = p := (find_live.mp hm).2.1
      exact hClosed m (ih n p hNode hPar m hm hMem hp) (mem_children.mpr ⟨hn, hId ▸ hPar, hLive⟩)
  intro hMem
  obtain ⟨q, hq, hLive, rfl, -⟩ := hPlaced.parent
  exact hNone q (hBelow q.id q (find_live.mpr ⟨hq, rfl, hLive⟩) hMem hPlaced.other) rfl

/-- The units below the placed one are lifted above its parent. -/
theorem Rooted.place (h : Rooted f db depth)
    (hPlaced : ∀ p, u.parentID = some p → Placed db u p) : ∃ depth' : ι → Nat,
      (∀ p, u.parentID = some p → depth' p < depth' u.id) ∧
      ∀ v ∈ db.rows, v.live → v.id ≠ u.id → ∀ p, v.parentID = some p → depth' p < depth' v.id := by
  let base := u.parentID.elim 0 fun p => depth p + 1
  refine ⟨fun x => if x = u.id ∨ u.id ∈ h.forest.chain x then depth x + base else depth x, fun p hPar => ?_,
    fun v hv hLive hOther p hPar => ?_⟩
  · have hp := hPlaced p hPar
    have hBase : base = depth p + 1 := by
      dsimp only [base]
      rw [hPar, elim_some]
    dsimp only
    rw [if_neg (not_or.mpr ⟨hp.other, hp.not_mem_chain h⟩), if_pos (.inl rfl)]
    omega
  · have hClimbs := h.climbs v hv hLive p hPar
    have hNode : h.forest.node v.id = some v := find_live.mpr ⟨hv, rfl, hLive⟩
    obtain ⟨q, hq, hqLive, rfl, -⟩ := h.parent v hv hLive p hPar
    have hSelf : q.id ∈ h.forest.chain q.id := Forest.self_mem_chain (n := q) (find_live.mpr ⟨hq, rfl, hqLive⟩)
    have hSame : v.id = u.id ∨ u.id ∈ h.forest.chain v.id ↔ q.id = u.id ∨ u.id ∈ h.forest.chain q.id := by
      rw [Forest.chain_of_parent hNode hPar, mem_cons]
      constructor
      · rintro (hId | hId | hMem)
        · exact absurd hId hOther
        · exact absurd hId.symm hOther
        · exact .inr hMem
      · rintro (hId | hMem)
        · exact .inr (.inr (hId ▸ hSelf))
        · exact .inr (.inr hMem)
    simp only [hSame]
    split <;> omega

/-- What a writer can do to the table: it puts one unit in. -/
structure Writes (f : Formats ι) (db : Database ι) (new : AcademicUnit ι) (db' : Database ι) : Prop where
  valid : new.validate f = none
  rows : ∀ x, x ∈ db'.rows ↔ x = new ∨ x ∈ db.rows ∧ x.id ≠ new.id
  old : ∀ row ∈ db.rows, row.id = new.id →
    new.institutionID = row.institutionID ∧ new.revision = row.revision + 1
  placed : new.live → ∀ p, new.parentID = some p → Placed db new p
  leaf : new.live = false → children db new.id = []

theorem writes_set {row : AcademicUnit ι} (hRow : row ∈ db.rows) (hId : new.id = row.id)
    (hValid : new.validate f = none) (hSame : new.institutionID = row.institutionID)
    (hRev : new.revision = row.revision + 1)
    (hPlaced : new.live → ∀ p, new.parentID = some p → Placed db new p)
    (hLeaf : new.live = false → children db new.id = []) : Writes f db new (db.set new) where
  valid := hValid
  rows := fun _ => Table.mem_set (Table.find_eq_some_iff.mpr ⟨hRow, hId.symm⟩)
  old := by
    intro x hx hxId
    rw [inj_on_of_nodup_map db.distinct hx hRow (hxId.trans hId)]
    exact ⟨hSame, hRev⟩
  placed := hPlaced
  leaf := hLeaf

theorem writes_create (h : Rooted f db depth)
    (hCreate : createAcademicUnit f db u refused = .ok db') : Writes f db u db' := by
  rw [createAcademicUnit] at hCreate
  split at hCreate
  · cases hCreate
  next hValid =>
  obtain ⟨_, hPar, hCreate⟩ := bind_ok hCreate
  replace hCreate := past_guard hCreate
  split at hCreate
  · cases hCreate
  next inserted hIns =>
  cases hCreate
  obtain ⟨hFree, hRows⟩ := Table.insert_eq_some hIns
  have hFresh : ∀ x ∈ db.rows, x.id ≠ u.id := Table.find_eq_none_iff.mp hFree
  refine ⟨hValid, fun x => ?_, fun x hx hId => absurd hId (hFresh x hx), fun _ => placed_of_ok hValid hPar,
    fun _ => eq_nil_iff_forall_not_mem.mpr fun x hx => ?_⟩
  · rw [hRows, mem_append, mem_singleton, or_comm]
    exact or_congr_right ⟨fun hx => ⟨hx, hFresh x hx⟩, And.left⟩
  obtain ⟨hMem, hLink, hLive⟩ := mem_children.mp hx
  obtain ⟨q, hq, -, hId, -⟩ := h.parent x hMem hLive u.id hLink
  exact hFresh q hq hId

theorem writes_update (h : Rooted f db depth) {candidate : AcademicUnit ι}
    (hUpdate : updateAcademicUnit f db candidate refused = .ok db') : ∃ new, Writes f db new db' := by
  rw [updateAcademicUnit] at hUpdate
  split at hUpdate
  · cases hUpdate
  next hValid =>
  obtain ⟨_, hPar, hUpdate⟩ := bind_ok hUpdate
  split at hUpdate
  · cases hUpdate
  next row hFind =>
  obtain ⟨hRow, hId, hLive⟩ := find_live.mp hFind
  obtain ⟨hSame, hUpdate⟩ := guard_ok hUpdate
  obtain ⟨hRev, hUpdate⟩ := guard_ok hUpdate
  obtain ⟨hChecks, hUpdate⟩ := guard_ok hUpdate
  cases hUpdate
  have hSame : row.institutionID = candidate.institutionID := not_not.mp hSame
  have hRev : candidate.revision = row.revision + 1 := by omega
  have hLater : row.createdAt ≤ candidate.updatedAt := Nat.le_of_not_lt fun hLess => hChecks (.inl hLess)
  obtain ⟨-, -, hUpd, -, -, hParents, hPositive, -, hNamed⟩ := validate_eq_none.mp hValid
  obtain ⟨hIdValid, hCreated, -, -, hInst, -, -, hArchived, -⟩ := validate_eq_none.mp (h.valid row hRow)
  refine ⟨_, writes_set hRow rfl ?_ rfl hRev (fun _ p hp => ?_) fun hArchived => ?_⟩
  · exact validate_eq_none.mpr ⟨hIdValid, hCreated, hUpd, hLater, hInst, fun p hp => hId ▸ hParents p hp,
      hPositive, hArchived, hNamed⟩
  · obtain ⟨hOther, ⟨q, hq, hqLive, hqId, hqSame⟩, hAcyclic⟩ := placed_of_ok hValid hPar p hp
    exact ⟨hId ▸ hOther, ⟨q, hq, hqLive, hqId, hSame ▸ hqSame⟩, hId ▸ hAcyclic⟩
  · exact absurd hLive (Bool.not_eq_true _ ▸ hArchived)

theorem writes_archive {input : AcademicUnitArchive ι} {dependent : Bool}
    (hArchive : archiveAcademicUnit f db input dependent refused = .ok db') : ∃ new, Writes f db new db' := by
  replace hArchive := past_guard hArchive
  split at hArchive
  · cases hArchive
  next row hFind =>
  obtain ⟨hRow, hId, -⟩ := find_live.mp hFind
  obtain ⟨current, -, hArchive⟩ := bind_ok hArchive
  replace hArchive := past_guard hArchive
  obtain ⟨hLeaf, hArchive⟩ := guard_ok hArchive
  replace hArchive := past_guard hArchive
  obtain ⟨archived, hModel, rfl⟩ := bind_pure_ok hArchive
  refine ⟨_, writes_set hRow rfl ?_ rfl rfl nofun fun _ => ?_⟩
  · rw [model] at hModel
    split at hModel
    · assumption
    · cases hModel
  · rw [not_or, Bool.not_eq_true', Bool.not_eq_false, List.isEmpty_iff] at hLeaf
    exact hId ▸ hLeaf.1

theorem writes_step (h : Rooted f db depth) {op : Operation ι} (hStep : step f db op = some db') :
    ∃ new, Writes f db new db' := by
  rw [step] at hStep
  cases hExec : execute f db op with
  | error fault =>
    rw [hExec] at hStep
    cases hStep
  | ok result =>
    rw [hExec] at hStep
    cases hStep
    cases op with
    | create u refused => exact ⟨u, writes_create h hExec⟩
    | update u refused => exact writes_update h hExec
    | archive input dependent refused => exact writes_archive hExec

theorem Writes.rooted (hWrites : Writes f db new db') (h : Rooted f db depth) :
    ∃ depth', Rooted f db' depth' := by
  obtain ⟨depth', hNew, hOld⟩ : ∃ depth' : ι → Nat,
      (new.live → ∀ p, new.parentID = some p → depth' p < depth' new.id) ∧
      ∀ v ∈ db.rows, v.live → v.id ≠ new.id → ∀ p, v.parentID = some p → depth' p < depth' v.id := by
    by_cases hLive : new.live = true
    · obtain ⟨depth', hNew, hOld⟩ := h.place (hWrites.placed hLive)
      exact ⟨depth', fun _ => hNew, hOld⟩
    · exact ⟨depth, fun hNew => absurd hNew hLive, fun v hv hvLive _ => h.climbs v hv hvLive⟩
  refine ⟨depth', fun x hx => ?_, fun x hx hLive p hp => ?_, fun x hx hLive p hp => ?_⟩
  · rcases (hWrites.rows x).mp hx with rfl | ⟨hx, -⟩
    · exact hWrites.valid
    · exact h.valid x hx
  · rcases (hWrites.rows x).mp hx with rfl | ⟨hx, -⟩
    · obtain ⟨q, hq, hRest⟩ := (hWrites.placed hLive p hp).parent
      exact ⟨q, (hWrites.rows q).mpr (.inr ⟨hq, hRest.2.1 ▸ (hWrites.placed hLive p hp).other⟩), hRest⟩
    obtain ⟨q, hq, hqLive, rfl, hqSame⟩ := h.parent x hx hLive p hp
    by_cases hMoved : q.id = new.id
    · cases hNewLive : new.live with
      | true => exact ⟨new, (hWrites.rows new).mpr (.inl rfl), hNewLive, hMoved.symm,
          (hWrites.old q hq hMoved).1.trans hqSame⟩
      | false =>
        have hChild : x ∈ children db new.id := mem_children.mpr ⟨hx, hMoved ▸ hp, hLive⟩
        rw [hWrites.leaf hNewLive] at hChild
        cases hChild
    · exact ⟨q, (hWrites.rows q).mpr (.inr ⟨hq, hMoved⟩), hqLive, rfl, hqSame⟩
  · rcases (hWrites.rows x).mp hx with rfl | ⟨hx, hOther⟩
    · exact hNew hLive p hp
    · exact hOld x hx hLive hOther p hp

/-- A unit is kept with its institution, and its revision rises by one where it changes. -/
def Advances (db db' : Database ι) : Prop :=
  ∀ u ∈ db.rows, ∃ u' ∈ db'.rows, u'.id = u.id ∧ u'.institutionID = u.institutionID ∧
    (u' = u ∨ u'.revision = u.revision + 1)

theorem Writes.advances (hWrites : Writes f db new db') : Advances db db' := by
  intro u hu
  by_cases hChg : u.id = new.id
  · obtain ⟨hSame, hRev⟩ := hWrites.old u hu hChg
    exact ⟨new, (hWrites.rows new).mpr (.inl rfl), hChg.symm, hSame, .inr hRev⟩
  · exact ⟨u, (hWrites.rows u).mpr (.inr ⟨hu, hChg⟩), rfl, rfl, .inl rfl⟩

/-! ## The queries -/

structure Link (db : Database ι) (u p : AcademicUnit ι) : Prop where
  unit : u ∈ db.rows ∧ u.live
  parent : p ∈ db.rows ∧ p.live
  link : u.parentID = some p.id

/-- The live units are a forest that the recursive queries follow. -/
structure Forested (f : Formats ι) (db : Database ι) : Prop where
  parent : ∀ u ∈ db.rows, u.live → ∀ p, u.parentID = some p →
    ∃ q ∈ db.rows, q.live ∧ q.id = p ∧ q.institutionID = u.institutionID
  acyclic : ∀ u, ¬Relation.TransGen (Link db) u u
  descendants : ∀ id, (descendants db id).isSome
  ancestors : ∀ u ∈ db.rows, u.live → ∃ path, listAncestors f db u.id = .ok path ∧ path.head? = some u ∧
    path.IsChain (Link db) ∧ (∀ root, path.getLast? = some root → root.parentID = none) ∧ path.Nodup

theorem Rooted.chain_length (h : Rooted f db depth) (id : ι) : (h.forest.chain id).length ≤ db.rows.length := by
  have hIds : h.forest.chain id ⊆ db.rows.map fun u => u.id := by
    intro i hi
    obtain ⟨u, hNode⟩ := Forest.node_of_mem_chain hi
    obtain ⟨hu, rfl, -⟩ := find_live.mp hNode
    exact mem_map_of_mem hu
  exact (subperm_of_subset (h.forest.chain_nodup id) hIds).length_le.trans_eq (length_map _)

theorem Rooted.descendants_isSome (h : Rooted f db depth) (id : ι) : (descendants db id).isSome := by
  have hLive : ∀ i, ∀ u ∈ children db i, u ∈ db.rows ∧ u.live := fun i u hu =>
    ⟨(mem_children.mp hu).1, (mem_children.mp hu).2.2⟩
  refine Sql.recursiveRows_isSome (fun u => u ∈ db.rows ∧ u.live) (fun u => (h.forest.chain u.id).length)
    db.rows.length (fun u _ => h.chain_length u.id) (fun p hp u hu => ⟨hLive p.id u hu, ?_⟩)
    fun u hu => ⟨hLive id u hu, by omega⟩
  obtain ⟨hMem, hPar, hULive⟩ := mem_children.mp hu
  have hNode : h.forest.node u.id = some u := find_live.mpr ⟨hMem, rfl, hULive⟩
  rw [Forest.chain_of_parent hNode hPar]
  exact Nat.lt_succ_self _

theorem parents_eq (u : AcademicUnit ι) :
    parents db u = (u.parentID.bind fun p => (db.find p).filter (·.live)).toList := by
  cases hPar : u.parentID with
  | none => simp [parents, hPar]
  | some p =>
    rw [bind_some, ← Table.filter_key]
    refine filter_congr fun q _ => ?_
    simp only [hPar, some_inj, eq_comm]

theorem Rooted.exists_path (h : Rooted f db depth) (i : ι) : ∀ u, h.forest.node i = some u → ∃ path,
    path.map (fun u => u.id) = h.forest.chain i ∧ path.head? = some u ∧ (∀ x ∈ path, x ∈ db.rows) ∧
    path.IsChain (Link db) ∧ (∀ root, path.getLast? = some root → root.parentID = none) ∧
    ∀ rounds, path.length ≤ rounds → recursiveRows (parents db) rounds [u] = some path := by
  induction i using Forest.induction (f := h.forest) with
  | hStep i ih =>
    intro u hNode
    obtain ⟨hu, rfl, hLive⟩ := find_live.mp hNode
    have hRound : ∀ rounds, recursiveRows (parents db) (rounds + 1) [u] =
        (recursiveRows (parents db) rounds (parents db u)).map (u :: ·) := by
      intro rounds
      rw [recursiveRows, flatMap_singleton]
      rfl
    cases hPar : u.parentID with
    | none =>
      refine ⟨[u], (Forest.chain_of_root hNode hPar).symm, rfl, by simpa using hu, .singleton u, ?_, ?_⟩
      · rintro root hLast
        rw [← Option.some.inj hLast]
        exact hPar
      · intro rounds hRounds
        obtain ⟨n, rfl⟩ : ∃ n, rounds = n + 1 := ⟨rounds - 1, (Nat.sub_add_cancel hRounds).symm⟩
        rw [hRound, parents_eq, hPar, bind_none, toList_none, Sql.recursiveRows_nil]
        rfl
    | some p =>
      obtain ⟨q, hq, hqLive, rfl, -⟩ := h.parent u hu hLive p hPar
      have hqNode : h.forest.node q.id = some q := find_live.mpr ⟨hq, rfl, hqLive⟩
      obtain ⟨path, hIds, hHead, hRows, hChain, hLast, hQuery⟩ := ih u q.id hNode hPar q hqNode
      obtain ⟨tail, rfl⟩ := head?_eq_some_iff.mp hHead
      refine ⟨u :: q :: tail, ?_, rfl, ?_, ?_, ?_, ?_⟩
      · rw [Forest.chain_of_parent hNode hPar, map_cons, hIds]
      · exact forall_mem_cons.mpr ⟨hu, hRows⟩
      · exact isChain_cons_cons.mpr ⟨⟨⟨hu, hLive⟩, ⟨hq, hqLive⟩, hPar⟩, hChain⟩
      · intro root hRoot
        exact hLast root hRoot
      · intro rounds hRounds
        obtain ⟨n, rfl⟩ : ∃ n, rounds = n + 1 := ⟨rounds - 1, by simp at hRounds; omega⟩
        have hFound : parents db u = [q] := by
          rw [parents_eq, hPar]
          exact congrArg Option.toList hqNode
        rw [hRound, hFound, hQuery n (by simpa using hRounds)]
        rfl

theorem Rooted.forested (h : Rooted f db depth) : Forested f db where
  parent := h.parent
  acyclic := by
    intro u hCycle
    have hClimbs : ∀ v, Relation.TransGen (Link db) u v → depth v.id < depth u.id := by
      intro v hv
      induction hv with
      | single hLink => exact h.climbs _ hLink.unit.1 hLink.unit.2 _ hLink.link
      | tail _ hLink ih => exact Nat.lt_trans (h.climbs _ hLink.unit.1 hLink.unit.2 _ hLink.link) ih
    exact lt_irrefl _ (hClimbs u hCycle)
  descendants := h.descendants_isSome
  ancestors := by
    intro u hu hLive
    have hNode : h.forest.node u.id = some u := find_live.mpr ⟨hu, rfl, hLive⟩
    obtain ⟨path, hIds, hHead, hRows, hChain, hLast, hQuery⟩ := h.exists_path u.id u hNode
    have hLen : path.length ≤ db.rows.length := by
      rw [← length_map (f := fun u : AcademicUnit ι => u.id), hIds]
      exact h.chain_length u.id
    refine ⟨path, ?_, hHead, hChain, hLast, List.Nodup.of_map _ (hIds ▸ h.forest.chain_nodup u.id)⟩
    have hFirst : db.rows.filter (fun x => x.id = u.id && x.live) = [u] := by
      rw [Table.filter_key]
      exact congrArg Option.toList hNode
    have hModel : path.mapM (model f) = .ok path := by
      refine (mapM_ok id fun x hx => ?_).trans (congrArg _ (map_id path))
      rw [model, h.valid x (hRows x hx)]
      rfl
    rw [listAncestors, hFirst, hQuery _ (Nat.le_succ_of_le hLen)]
    obtain ⟨tail, rfl⟩ := head?_eq_some_iff.mp hHead
    exact hModel

/-- Every run of the writers leaves the live units a forest, which the recursive queries end on, and no
step of one changes the institution of a unit or a unit without raising its revision by one. -/
theorem academic_units_form_forest (f : Formats ι) {db : Database ι} (hRun : Reaches (step f) .empty db) :
    Forested f db ∧ ∀ op db', step f db op = some db' → Advances db db' := by
  have hRooted : ∃ depth, Rooted f db depth := by
    refine hRun.invariant (P := fun db => ∃ depth, Rooted f db depth) (fun s op t hs hStep => ?_)
      ⟨fun _ => 0, nofun, nofun, nofun⟩
    obtain ⟨depth, hs⟩ := hs
    obtain ⟨new, hWrites⟩ := writes_step hs hStep
    exact hWrites.rooted hs
  obtain ⟨depth, hRooted⟩ := hRooted
  refine ⟨hRooted.forested, fun op db' hStep => ?_⟩
  obtain ⟨new, hWrites⟩ := writes_step hRooted hStep
  exact hWrites.advances

def plainFormats : Formats Nat := ⟨fun id => id ≠ 0, fun _ _ _ => none⟩

def plainUnit (id : Nat) (parentID : Option Nat) (revision : Int) : AcademicUnit Nat :=
  ⟨id, 1, 1, none, revision, 9, parentID, toString id, "", ""⟩

/-- Three nested units; the innermost is moved under the outermost, and its former parent archived. -/
def moveAndArchive : List (Operation Nat) :=
  [.create (plainUnit 1 none 1) false, .create (plainUnit 2 (some 1) 1) false,
    .create (plainUnit 3 (some 2) 1) false,
    .update (plainUnit 3 (some 1) 2) false, .archive ⟨2, 5, 1⟩ false false]

theorem moved_units_form_forest : ∃ db : Database Nat, (db.rows.map fun u => (u.id, u.parentID, u.live)) =
    [(1, none, true), (2, some 1, false), (3, some 1, true)] ∧ Forested plainFormats db := by
  have hRun : (moveAndArchive.foldlM (step plainFormats) .empty).isSome = true := by decide
  obtain ⟨db, hRun⟩ := isSome_iff_exists.mp hRun
  have hRows : (moveAndArchive.foldlM (step plainFormats) .empty).map
      (fun db => db.rows.map fun u => (u.id, u.parentID, u.live)) =
      some [(1, none, true), (2, some 1, false), (3, some 1, true)] := by decide
  rw [hRun] at hRows
  exact ⟨db, Option.some.inj hRows, (academic_units_form_forest plainFormats (Transition.reaches_of_foldlM hRun)).1⟩

end Forest

end Proctor.AcademicUnits
