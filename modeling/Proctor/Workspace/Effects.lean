import Proctor.Workspace.Store

/-! # What a transaction does to the rows

Every mutation that commits is one of five changes of the rows, each with the conditions that the
operation checked; the operations on objects alone leave the entries and the journal as they are. The
invariants of a Workspace are derived from these two inversions. -/
namespace Proctor.Workspace

open Fallible Keyed List Table Entry Except
open Prod (fst)
open Bool (and_eq_true not_eq_true not_eq_true')
open Option (filter_some map_some some)

namespace Store

/-- A staged object of the Attempt with the content that a mutation publishes. -/
structure Ready (w : Store) (id : Text) (o : Object) (content : Content) : Prop where
  found : w.objects.find id = some o
  origin : o.origin = .attempt
  staged : ∃ expiresAt, o.state = .staged expiresAt
  content : o.content = some content

def HasParent (w : Store) (path : Text) : Prop :=
  ∀ parent, parentPath path = some parent → ∃ e ∈ w.entries.rows, e.path = parent ∧ e.kind = .directory

structure CanMove (w : Store) (root destination : Text) : Prop where
  parent : w.HasParent destination
  outside : below root destination = false
  valid : ∀ d ∈ w.entries.rows, inSubtree root d.path = true → validPath (movedPath root destination d.path) = true
  free : ∀ d ∈ w.entries.rows, inSubtree root d.path = true → ∀ x ∈ w.entries.rows,
    x.path = movedPath root destination d.path → inSubtree root x.path = true

end Store

def Entry.renamed (root destination : Text) (e : Entry) : Entry :=
  if inSubtree root e.path then { e with path := movedPath root destination e.path } else e

/-- An entry that the deletion of `e` leaves. -/
def Mutation.keeps (m : Mutation) (e d : Entry) : Bool :=
  if m.recursive then !inSubtree e.path d.path else d.id ≠ m.entryID

/-- The changes of the rows that a mutation can make, with what it has checked. -/
inductive Applies (env : Environment) (m : Mutation) (w : Store) : Store → Effect → Prop
  | createFile {o : Object} {content : Content} {entries : Table Entry.id} {protectedIDs : List Text}
      (hOperation : m.operation = .createFile) (hValid : validPath m.destinationPath = true)
      (hParent : w.HasParent m.destinationPath)
      (hCount : w.entries.rows.length + 1 ≤ w.capacity.maximumEntries)
      (hReady : w.Ready m.objectID o content)
      (hBytes : w.usageBytes + content.sizeBytes ≤ w.capacity.maximumTotalBytes)
      (hFree : ∀ e ∈ w.entries.rows, e.path ≠ m.destinationPath)
      (hInsert : w.entries.insert ⟨m.entryID, .file, m.destinationPath, some m.objectID⟩ = some entries) :
      Applies env m w { w with entries := entries, objects := w.objects.set (o.markCurrent env.now) }
        ⟨.file, [], m.destinationPath, content.version, protectedIDs⟩
  | createDirectory {entries : Table Entry.id} {protectedIDs : List Text}
      (hOperation : m.operation = .createDirectory) (hValid : validPath m.destinationPath = true)
      (hParent : w.HasParent m.destinationPath)
      (hCount : w.entries.rows.length + 1 ≤ w.capacity.maximumEntries)
      (hFree : ∀ e ∈ w.entries.rows, e.path ≠ m.destinationPath)
      (hInsert : w.entries.insert ⟨m.entryID, .directory, m.destinationPath, none⟩ = some entries) :
      Applies env m w { w with entries := entries } ⟨.directory, [], m.destinationPath, [], protectedIDs⟩
  | replaceFile {e : Entry} {old content : Content} {o : Object} {objects : Table Object.id}
      {protectedIDs : List Text}
      (hOperation : m.operation = .replaceFile) (hEntry : w.entries.find m.entryID = some e)
      (hKind : e.kind = .file) (hOld : w.contentOf e = some old) (hReady : w.Ready m.objectID o content)
      (hBytes : w.usageBytes + content.sizeBytes ≤ w.capacity.maximumTotalBytes + old.sizeBytes)
      (hObjects : ∀ id, objects.find id = ((w.objects.set (o.markCurrent env.now)).find id).map fun x =>
        if x.origin = .attempt ∧ x.state = .current ∧ e.objectID = some id then x.retire env.now none else x) :
      Applies env m w
        { w with entries := w.entries.set { e with objectID := some m.objectID }, objects := objects }
        ⟨.file, e.path, e.path, content.version, protectedIDs⟩
  | moveEntry {e : Entry} {entries : Table Entry.id} {version : Text} {protectedIDs : List Text}
      (hOperation : m.operation = .moveEntry) (hEntry : w.entries.find m.entryID = some e)
      (hCheck : w.CanMove e.path m.destinationPath)
      (hRows : entries.rows = w.entries.rows.map (Entry.renamed e.path m.destinationPath)) :
      Applies env m w { w with entries := entries } ⟨e.kind, e.path, m.destinationPath, version, protectedIDs⟩
  | deleteEntry {e : Entry} {objects : Table Object.id} {protectedIDs : List Text} (retiredBy : Option Text)
      (hOperation : m.operation = .deleteEntry) (hEntry : w.entries.find m.entryID = some e)
      (hLeaf : m.recursive = false → e.kind = .directory →
        ∀ d ∈ w.entries.rows, below e.path d.path = false)
      (hObjects : ∀ id, objects.find id = (w.objects.find id).map fun x =>
        if x.origin = .attempt ∧ x.state = .current ∧
            w.entries.rows.any (fun d => d.objectID = some id && !m.keeps e d) then
          x.retire env.now retiredBy
        else x) :
      Applies env m w { w with entries := w.entries.keep (m.keeps e), objects := objects }
        ⟨e.kind, e.path, [], [], protectedIDs⟩

/-! ## Contents -/

section Contents

variable {w w' : Store}

def Store.contentAt (w : Store) (id : Text) : Option Content := (w.objects.find id).bind (·.content)

theorem contentOf_eq (w : Store) (e : Entry) : w.contentOf e = e.objectID.bind w.contentAt :=
  Option.bind_assoc ..

def Store.sizeOf (w : Store) (e : Entry) : Nat := ((w.contentOf e).map (·.sizeBytes)).getD 0

theorem usageBytes_eq (w : Store) : w.usageBytes = (w.entries.rows.map w.sizeOf).sum := rfl

theorem contentOf_congr (h : ∀ id, w'.contentAt id = w.contentAt id) : w'.contentOf = w.contentOf := by
  funext e
  rw [contentOf_eq, contentOf_eq, funext h]

theorem sizeOf_congr (h : ∀ id, w'.contentAt id = w.contentAt id) : w'.sizeOf = w.sizeOf := by
  funext e
  rw [Store.sizeOf, contentOf_congr h]
  rfl

theorem usageBytes_congr (hEnts : w'.entries = w.entries)
    (h : ∀ e ∈ w.entries.rows, w'.contentOf e = w.contentOf e) : w'.usageBytes = w.usageBytes := by
  unfold Store.usageBytes
  rw [hEnts]
  congr 1
  exact map_congr_left fun e he => by rw [h e he]

theorem contentAt_of_map {before : Option Object} {f : Object → Object} {id : Text}
    (hFind : w'.objects.find id = before.map f) (hCont : ∀ o, (f o).content = o.content) :
    w'.contentAt id = before.bind (·.content) := by
  unfold Store.contentAt
  rw [hFind]
  cases before with
  | none => rfl
  | some o => exact hCont o

theorem contentAt_markCurrent {id other : Text} {o : Object} {now : Instant}
    (hFound : w.objects.find id = some o) :
    { w with objects := w.objects.set (o.markCurrent now) }.contentAt other = w.contentAt other := by
  obtain ⟨-, rfl⟩ := find_eq_some_iff.mp hFound
  unfold Store.contentAt
  by_cases hSame : other = o.id
  · subst hSame
    have hSet : (w.objects.set (o.markCurrent now)).find o.id = some (o.markCurrent now) :=
      find_set_self hFound
    rw [hSet, hFound]
    rfl
  · rw [find_set_of_ne (r := o.markCurrent now) hSame]

theorem usageBytes_markCurrent {id : Text} {o : Object} {now : Instant}
    (hFound : w.objects.find id = some o) :
    { w with objects := w.objects.set (o.markCurrent now) }.usageBytes = w.usageBytes := by
  refine usageBytes_congr rfl fun e _ => ?_
  rw [contentOf_congr fun other => contentAt_markCurrent hFound]

theorem Applies.contentAt {env : Environment} {m : Mutation} {effect : Effect} (h : Applies env m w w' effect)
    (id : Text) : w'.contentAt id = w.contentAt id := by
  cases h with
  | createFile _ _ _ _ hReady => exact contentAt_markCurrent hReady.found
  | createDirectory => rfl
  | replaceFile _ _ _ _ hReady _ hObjs =>
    rw [contentAt_of_map (hObjs id) fun x => by split <;> rfl]
    exact contentAt_markCurrent hReady.found
  | moveEntry => rfl
  | deleteEntry retiredBy _ _ _ hObjs => exact contentAt_of_map (hObjs id) fun x => by split <;> rfl

end Contents

/-! ## Checks -/

section Checks

variable {w w' : Store} {env : Environment} {m : Mutation} {u : Unit}

theorem hasParent_of_ensureParent {path : Text} (h : w.ensureParent path = .ok u) :
    w.HasParent path := by
  intro parent hPar
  rw [Store.ensureParent, hPar] at h
  dsimp only at h
  split at h
  · next hAny =>
    obtain ⟨e, he, hBoth⟩ := any_eq_true.mp hAny
    simp only [and_eq_true, decide_eq_true_eq] at hBoth
    exact ⟨e, he, hBoth⟩
  · cases h

theorem ensureCapacity_ok {entryDelta : Nat} {byteDelta : Int}
    (h : w.ensureCapacity entryDelta byteDelta = .ok u) :
    w.entries.rows.length + entryDelta ≤ w.capacity.maximumEntries ∧
      (w.usageBytes : Int) + byteDelta ≤ w.capacity.maximumTotalBytes := by
  obtain ⟨hEnts, h⟩ := guard_ok h
  obtain ⟨hBytes, -⟩ := guard_ok h
  exact ⟨Nat.le_of_not_lt hEnts, Int.not_lt.mp hBytes⟩

variable {e : Entry}

theorem loadEntry_ok {id : Text} (h : w.loadEntry id = .ok e) : w.entries.find id = some e := by
  unfold Store.loadEntry at h
  split at h
  · next hFind => rw [hFind, ok.inj h]
  · cases h

variable {now : Instant}

theorem consumeObject_ok {id : Text} {result : Store × Content}
    (h : w.consumeObject id now = .ok result) :
    ∃ o, w.Ready id o result.2 ∧ result.1 = { w with objects := w.objects.set (o.markCurrent now) } := by
  unfold Store.consumeObject at h
  split at h
  · cases h
  next o hFind =>
  split at h
  · next expiresAt content hOrig hState hCont =>
    split at h
    · cases ok.inj h
      exact ⟨o, ⟨hFind, hOrig, ⟨expiresAt, hState⟩, hCont⟩, rfl⟩
    · cases h
  · cases h

theorem insertEntry_ok {taken : Text → Bool} (h : w.insertEntry taken e = .ok w') :
    ∃ entries, w.entries.insert e = some entries ∧ (∀ x ∈ w.entries.rows, x.path ≠ e.path) ∧
      w' = { w with entries := entries } := by
  replace h := past_guard h
  split at h
  · cases h
  next entries hIns =>
  obtain ⟨hFree, h⟩ := guard_ok h
  refine ⟨entries, hIns, fun x hx hPath => hFree ?_, (ok.inj h).symm⟩
  exact any_eq_true.mpr ⟨x, hx, decide_eq_true hPath⟩

theorem retireWhere_ok {selected : Object → Bool} {retiredBy : Option Text}
    (h : w.retireWhere selected retiredBy now = .ok w') :
    w' = { w with objects := w'.objects } ∧ ∀ id, w'.objects.find id =
      (w.objects.find id).map fun o => if selected o then o.retire now retiredBy else o := by
  replace h := past_guard h
  cases ok.inj h
  refine ⟨rfl, fun id => ?_⟩
  rw [find_mapRows]

theorem leaveObject_ok {result : Store × List Text} (h : w.leaveObject e now = .ok result) :
    result.1 = { w with objects := result.1.objects } ∧ ∀ id, result.1.objects.find id =
      (w.objects.find id).map fun o =>
        if o.origin = .attempt ∧ o.state = .current ∧ e.objectID = some id then o.retire now none else o := by
  have hSame : ∀ id, ¬(∃ o, w.objects.find id = some o ∧ o.origin = .attempt ∧ e.objectID = some id) →
      w.objects.find id = (w.objects.find id).map fun o =>
        if o.origin = .attempt ∧ o.state = .current ∧ e.objectID = some id then o.retire now none else o := by
    intro id hNone
    cases hFind : w.objects.find id with
    | none => rfl
    | some o =>
      rw [map_some, if_neg]
      exact fun hAll => hNone ⟨o, hFind, hAll.1, hAll.2.2⟩
  unfold Store.leaveObject at h
  split at h
  · next hNone =>
    cases ok.inj h
    refine ⟨rfl, fun id => hSame id ?_⟩
    rintro ⟨o, hFind, -, hSelect⟩
    rw [Store.objectOf, hSelect, Option.bind_some, hFind] at hNone
    cases hNone
  · next o hObj =>
    obtain ⟨id, hSelect, hFind⟩ := Option.bind_eq_some_iff.mp hObj
    obtain ⟨-, hID⟩ := find_eq_some_iff.mp hFind
    split at h
    · cases hRetire : w.retireObject o.id now with
      | error fault =>
        rw [hRetire] at h
        cases h
      | ok retired =>
        rw [hRetire] at h
        cases ok.inj h
        obtain ⟨_, hWhere, hRetire⟩ := bind_ok hRetire
        replace hRetire := past_guard hRetire
        cases pure_ok hRetire
        obtain ⟨hRest, hObjs⟩ := retireWhere_ok hWhere
        refine ⟨hRest, fun other => (hObjs other).trans ?_⟩
        cases hOther : w.objects.find other with
        | none => rfl
        | some x =>
          obtain ⟨-, rfl⟩ := find_eq_some_iff.mp hOther
          simp only [map_some, and_eq_true, decide_eq_true_eq, hSelect, hID, some.injEq]
          have hCondition : (x.id = id ∧ x.origin = .attempt) ∧ x.state = .current ↔
              x.origin = .attempt ∧ x.state = .current ∧ id = x.id := by
            tauto
          rw [if_congr hCondition rfl rfl]
    · next hStarter =>
      cases ok.inj h
      refine ⟨rfl, fun other => hSame other ?_⟩
      rintro ⟨x, hOther, hOrig, hBoth⟩
      cases hSelect.symm.trans hBoth
      cases hFind.symm.trans hOther
      exact hStarter hOrig

theorem prepare_destination (h : m.prepare = .ok u)
    (hOp : m.operation = .createFile ∨ m.operation = .createDirectory) :
    validPath m.destinationPath := by
  unfold Mutation.prepare invalidMutation at h
  simp only [guard_ok_iff] at h
  obtain ⟨-, -, h⟩ := h
  rcases hOp with hOp | hOp <;>
  · rw [hOp] at h
    simp only [guard_ok_iff, Bool.or_eq_true, not_eq_true', not_or, Bool.not_eq_false] at h
    exact h.1.1.1.1

end Checks

/-! ## Moves -/

section Moves

variable {w w' : Store} {root destination : Text}

def Entry.moved (moves : List (Text × Text)) (e : Entry) : Entry :=
  moves.foldl (fun e move => if e.id = move.1 then { e with path := move.2 } else e) e

theorem Entry.moved_id (moves : List (Text × Text)) (e : Entry) : (e.moved moves).id = e.id := by
  induction moves generalizing e with
  | nil => rfl
  | cons move moves ih =>
    rw [moved, foldl_cons]
    refine (ih _).trans ?_
    split <;> rfl

variable {moves : List (Text × Text)} {e : Entry}

theorem Entry.moved_of_notMem (h : e.id ∉ moves.map fst) : e.moved moves = e := by
  induction moves with
  | nil => rfl
  | cons move moves ih =>
    simp only [map_cons, mem_cons, not_or] at h
    rw [moved, foldl_cons, if_neg h.1]
    exact ih h.2

theorem Entry.moved_of_mem {path : Text}
    (hNodup : (moves.map fst).Nodup) (h : (e.id, path) ∈ moves) :
    e.moved moves = { e with path := path } := by
  induction moves with
  | nil => cases h
  | cons move moves ih =>
    rw [map_cons, nodup_cons] at hNodup
    rw [moved, foldl_cons]
    rcases mem_cons.mp h with rfl | hRest
    · rw [if_pos rfl]
      exact moved_of_notMem (e := { e with path := path }) hNodup.1
    have hOther : ¬e.id = move.1 := fun hSame =>
      hNodup.1 (hSame ▸ mem_map_of_mem hRest)
    rw [if_neg hOther]
    exact ih hNodup.2 hRest

theorem updatePath_ok {move : Text × Text} (h : w.updatePath move = .ok w') :
    w' = { w with entries := w'.entries } ∧
      w'.entries.rows = w.entries.rows.map fun e => if e.id = move.1 then { e with path := move.2 } else e := by
  replace h := past_guard h
  cases ok.inj h
  exact ⟨rfl, rfl⟩

theorem foldlM_updatePath_ok (h : moves.foldlM Store.updatePath w = .ok w') :
    w' = { w with entries := w'.entries } ∧ w'.entries.rows = w.entries.rows.map (moved moves) := by
  induction moves generalizing w with
  | nil =>
    cases pure_ok h
    exact ⟨rfl, (map_id _).symm⟩
  | cons move moves ih =>
    obtain ⟨next, hNext, h⟩ := bind_ok h
    obtain ⟨hSame, hRows⟩ := updatePath_ok hNext
    obtain ⟨hRest, hMoved⟩ := ih h
    refine ⟨?_, ?_⟩
    · rw [hRest, hSame]
    · rw [hMoved, hRows, map_map]
      rfl

theorem nodup_moving : ((w.moving root destination).map fst).Nodup := by
  rw [Store.moving, map_map]
  exact w.entries.nodup_filter _

theorem mem_moving (he : e ∈ w.entries.rows) (h : inSubtree root e.path) :
    (e.id, movedPath root destination e.path) ∈ w.moving root destination :=
  mem_map.mpr ⟨e, mem_filter.mpr ⟨he, h⟩, rfl⟩

theorem inSubtree_of_mem_moving (he : e ∈ w.entries.rows)
    (h : e.id ∈ (w.moving root destination).map fst) : inSubtree root e.path := by
  obtain ⟨move, hMove, hID⟩ := mem_map.mp h
  obtain ⟨d, hd, rfl⟩ := mem_map.mp hMove
  obtain ⟨hIn, hd⟩ := mem_filter.mp hd
  rwa [inj_on_of_nodup_map w.entries.distinct hIn he hID] at hd

theorem moved_eq_renamed {order : List (Text × Text)} (hPerm : order.Perm (w.moving root destination))
    (he : e ∈ w.entries.rows) : e.moved order = e.renamed root destination := by
  have hIDs := hPerm.map fst
  by_cases hIn : inSubtree root e.path = true
  · rw [moved_of_mem (hIDs.nodup_iff.mpr nodup_moving) (hPerm.mem_iff.mpr (mem_moving he hIn)),
      renamed, if_pos hIn]
  · rw [moved_of_notMem, renamed, if_neg hIn]
    exact fun hID => hIn (inSubtree_of_mem_moving he (hIDs.mem_iff.mp hID))

theorem checkMove_ok {u : Unit} (h : w.checkMove root destination = .ok u) : w.CanMove root destination := by
  obtain ⟨_, hPar, h⟩ := bind_ok h
  obtain ⟨hOutside, h⟩ := guard_ok h
  obtain ⟨hAllow, -⟩ := guard_ok h
  simp only [not_or, not_eq_true] at hOutside
  simp only [not_eq_true, any_eq_false, Bool.or_eq_true, not_eq_true', not_or,
    Bool.not_eq_false] at hAllow
  refine ⟨hasParent_of_ensureParent hPar, hOutside.2, fun d hd hIn => (hAllow _ (mem_moving hd hIn)).1, ?_⟩
  intro d hd hIn x hx hPath
  by_contra hOut
  refine absurd (any_eq_true.mpr ⟨x, hx, ?_⟩) (Bool.eq_false_iff.mp (hAllow _ (mem_moving hd hIn)).2)
  have hOther : x.id ≠ d.id := fun hSame =>
    hOut (inj_on_of_nodup_map w.entries.distinct hx hd hSame ▸ hIn)
  have hStays : x.id ∉ (w.moving root destination).map fst := fun hID =>
    hOut (inSubtree_of_mem_moving hx hID)
  simp only [and_eq_true, decide_eq_true_eq, not_eq_true', contains_iff_mem,
    ← not_eq_true]
  exact ⟨⟨hPath, hOther⟩, hStays⟩

end Moves

/-! ## Mutations -/

section Mutations

variable {w w' : Store} {env : Environment} {m : Mutation} {effect : Effect}

theorem createFile_applies (hPrep : m.prepare = .ok ()) (hOp : m.operation = .createFile)
    (h : w.createFile env m = .ok (w', effect)) : Applies env m w w' effect := by
  obtain ⟨_, hPar, h⟩ := bind_ok h
  obtain ⟨_, hCount, h⟩ := bind_ok h
  obtain ⟨⟨after, content⟩, hConsumed, h⟩ := bind_ok h
  obtain ⟨_, hBytes, h⟩ := bind_ok h
  obtain ⟨created, hCreated, h⟩ := bind_ok h
  obtain ⟨o, hReady, rfl⟩ := consumeObject_ok hConsumed
  obtain ⟨entries, hIns, hFree, rfl⟩ := insertEntry_ok hCreated
  have hSize := (ensureCapacity_ok hBytes).2
  rw [usageBytes_markCurrent hReady.found] at hSize
  cases pure_ok h
  exact .createFile hOp (prepare_destination hPrep (.inl hOp))
    (hasParent_of_ensureParent hPar) (ensureCapacity_ok hCount).1 hReady (by exact_mod_cast hSize)
    hFree hIns

theorem createDirectory_applies (hPrep : m.prepare = .ok ()) (hOp : m.operation = .createDirectory)
    (h : w.createDirectory env m = .ok (w', effect)) : Applies env m w w' effect := by
  obtain ⟨_, hPar, h⟩ := bind_ok h
  obtain ⟨_, hCount, h⟩ := bind_ok h
  obtain ⟨created, hCreated, h⟩ := bind_ok h
  obtain ⟨entries, hIns, hFree, rfl⟩ := insertEntry_ok hCreated
  cases pure_ok h
  exact .createDirectory hOp (prepare_destination hPrep (.inr hOp))
    (hasParent_of_ensureParent hPar) (ensureCapacity_ok hCount).1 hFree hIns

theorem replaceFile_applies (hOp : m.operation = .replaceFile)
    (h : w.replaceFile env m = .ok (w', effect)) : Applies env m w w' effect := by
  obtain ⟨e, hEntry, h⟩ := bind_ok h
  split at h
  · cases h
  next old hOld =>
  obtain ⟨hExpected, h⟩ := guard_ok h
  simp only [not_or, not_not] at hExpected
  obtain ⟨⟨after, content⟩, hConsumed, h⟩ := bind_ok h
  obtain ⟨_, hBytes, h⟩ := bind_ok h
  obtain ⟨⟨left, protectedIDs⟩, hLeft, h⟩ := bind_ok h
  obtain ⟨o, hReady, rfl⟩ := consumeObject_ok hConsumed
  obtain ⟨hRest, hObjs⟩ := leaveObject_ok hLeft
  have hSize := (ensureCapacity_ok hBytes).2
  rw [usageBytes_markCurrent hReady.found] at hSize
  have hBound : w.usageBytes + content.sizeBytes ≤ w.capacity.maximumTotalBytes + old.sizeBytes := by
    dsimp only at hSize
    omega
  cases pure_ok h
  rw [hRest]
  exact .replaceFile hOp (loadEntry_ok hEntry) hExpected.1 hOld hReady hBound hObjs

theorem moveEntry_applies (hOp : m.operation = .moveEntry)
    (h : w.moveEntry env m = .ok (w', effect)) : Applies env m w w' effect := by
  obtain ⟨e, hEntry, h⟩ := bind_ok h
  replace h := past_guard h
  obtain ⟨moved, hMoved, h⟩ := bind_ok h
  obtain ⟨_, hCheck, hMoved⟩ := bind_ok hMoved
  have hCheck := checkMove_ok hCheck
  obtain ⟨hRest, hRows⟩ := foldlM_updatePath_ok hMoved
  have hRenamed : moved.entries.rows = w.entries.rows.map (renamed e.path m.destinationPath) := by
    rw [hRows]
    exact map_congr_left fun d hd => moved_eq_renamed (env.shuffle.perm _) hd
  rw [hRest] at h
  split at h
  · next hKind =>
    cases pure_ok h
    rw [← hKind]
    exact .moveEntry hOp (loadEntry_ok hEntry) hCheck hRenamed
  · next content hKind _ =>
    cases pure_ok h
    rw [← hKind]
    exact .moveEntry hOp (loadEntry_ok hEntry) hCheck hRenamed
  · cases h

section

variable (hDirs : ∀ e ∈ w.entries.rows, e.kind = .directory → e.objectID = none)
include hDirs

theorem deleteEntry_applies
    (hOp : m.operation = .deleteEntry) (h : w.deleteEntry env m = .ok (w', effect)) :
    Applies env m w w' effect := by
  obtain ⟨e, hEntry, h⟩ := bind_ok h
  replace h := past_guard h
  have hEntry := loadEntry_ok hEntry
  obtain ⟨hMem, hID⟩ := find_eq_some_iff.mp hEntry
  -- without recursion the deleted entry is the only one that does not stay
  have hOnly : m.recursive = false → ∀ id, w.entries.rows.any (fun d => d.objectID = some id && !m.keeps e d) =
      decide (e.objectID = some id) := by
    intro hRec id
    rw [Bool.eq_iff_iff, any_eq_true, decide_eq_true_eq]
    constructor
    · rintro ⟨d, hd, hBoth⟩
      simp only [Mutation.keeps, hRec, Bool.false_eq_true, if_false, and_eq_true, decide_eq_true_eq,
        not_eq_true', decide_eq_false_iff_not, ne_eq, not_not] at hBoth
      rw [← inj_on_of_nodup_map w.entries.distinct hd hMem (hBoth.2.trans hID.symm)]
      exact hBoth.1
    · intro hSelect
      refine ⟨e, hMem, ?_⟩
      simp [Mutation.keeps, hRec, hSelect, hID]
  have hKept : m.recursive = false → m.keeps e = fun d => decide (d.id ≠ m.entryID) := by
    intro hRec
    funext d
    simp [Mutation.keeps, hRec]
  split at h
  · next hKind =>
    replace h := past_guard h
    obtain ⟨hEmpty, h⟩ := guard_ok h
    have hLeaf : m.recursive = false → e.kind = .directory →
        ∀ d ∈ w.entries.rows, below e.path d.path = false := by
      intro hRec _ d hd
      by_contra hBelow
      refine hEmpty ⟨any_eq_true.mpr ⟨d, hd, ?_⟩, by simp [hRec]⟩
      rw [descendantLike_eq]
      simpa using hBelow
    split at h
    · next hRec =>
      obtain ⟨deleted, hDeleted, h⟩ := bind_ok h
      obtain ⟨retired, hRet, hDeleted⟩ := bind_ok hDeleted
      obtain ⟨hRest, hObjs⟩ := retireWhere_ok hRet
      have hKeeps : (fun d : Entry => !(d.path = e.path || descendantLike e.path d.path)) = m.keeps e := by
        funext d
        rw [Mutation.keeps, if_pos hRec, descendantLike_eq]
        rfl
      cases pure_ok hDeleted
      cases pure_ok h
      rw [← hKind, hRest, hKeeps]
      refine .deleteEntry (some m.auditEventID) hOp hEntry hLeaf fun id => (hObjs id).trans ?_
      cases hFind : w.objects.find id with
      | none => rfl
      | some o =>
        obtain ⟨-, rfl⟩ := find_eq_some_iff.mp hFind
        simp only [map_some, ← hKeeps, Bool.not_not, and_eq_true, decide_eq_true_eq, and_assoc]
    · next hRec =>
      have hRec := not_eq_true _ ▸ hRec
      cases pure_ok h
      rw [← hKind, ← hKept hRec]
      refine .deleteEntry none hOp hEntry hLeaf fun id => ?_
      cases hFind : w.objects.find id with
      | none => rfl
      | some o =>
        rw [hOnly hRec, hDirs e hMem hKind]
        simp
  · next hKind =>
    obtain ⟨hRec, h⟩ := guard_ok h
    have hRec := not_eq_true _ ▸ hRec
    split at h
    · cases h
    next content hCont =>
    replace h := past_guard h
    obtain ⟨⟨left, protectedIDs⟩, hLeft, h⟩ := bind_ok h
    obtain ⟨hRest, hObjs⟩ := leaveObject_ok hLeft
    cases pure_ok h
    rw [← hKind, hRest, ← hKept hRec]
    refine .deleteEntry none hOp hEntry (fun _ hDir => ?_) fun id => (hObjs id).trans ?_
    · rw [hKind] at hDir
      cases hDir
    · simp only [hOnly hRec, decide_eq_true_eq]

theorem operate_applies
    (hPrep : m.prepare = .ok ()) (h : w.operate env m = .ok (w', effect)) : Applies env m w w' effect := by
  unfold Store.operate at h
  split at h
  · next hOp => exact createFile_applies hPrep hOp h
  · next hOp => exact createDirectory_applies hPrep hOp h
  · next hOp => exact replaceFile_applies hOp h
  · next hOp => exact moveEntry_applies hOp h
  · next hOp => exact deleteEntry_applies hDirs hOp h

theorem applyMutation_applies
    (h : w.applyMutation env m = .ok w') :
    ∃ mid effect, Applies env m w mid effect ∧ w' = { mid with
      cursor := mid.cursor + 1
      journal := (mid.journal ++ [m.change effect (mid.cursor + 1) env.now]).filter fun c =>
        mid.cursor + 1 < c.cursor + journalRetention
      outcomes := w'.outcomes } := by
  obtain ⟨_, hPrep, h⟩ := bind_ok h
  obtain ⟨_, -, h⟩ := bind_ok h
  replace h := past_guard h
  obtain ⟨⟨mid, effect⟩, hOperate, h⟩ := bind_ok h
  obtain ⟨appended, hAppended, h⟩ := bind_ok h
  refine ⟨mid, effect, operate_applies hDirs hPrep hOperate, ?_⟩
  unfold Store.appendJournal at hAppended
  split at hAppended
  · cases ok.inj hAppended
    cases pure_ok h
    rfl
  · cases hAppended

end

end Mutations

/-! ## Operations on objects -/

def Object.isRetired (o : Object) : Bool :=
  match o.state with
  | .staged _ | .current => false
  | .reclaimable _ _ | .claimed _ _ _ _ => true

inductive Upkeep (w : Store) (id : Text) : Option Object → Option Object → Prop
  | same (row : Option Object) : Upkeep w id row row
  | reserved {o : Object} (hOrigin : o.origin = .attempt) (hStaged : ∃ expiresAt, o.state = .staged expiresAt)
      (hContent : o.content = none) : Upkeep w id none (some o)
  | aged {o next : Object} (hOrigin : o.origin = .attempt) (hSame : next.origin = o.origin)
      (hBefore : o.state ≠ .current) (hAfter : next.state ≠ .current)
      (hContent : o.content = none ∨ next.content = o.content)
      (hRetired : o.isRetired = true → next.isRetired = true) : Upkeep w id (some o) (some next)
  | deleted {o : Object} (hOrigin : o.origin = .attempt) (hRetired : o.isRetired = true)
      (hFree : ∀ e ∈ w.entries.rows, e.objectID ≠ some id) : Upkeep w id (some o) none

structure Housekeeps (w w' : Store) : Prop where
  capacity : w'.capacity = w.capacity
  entries : w'.entries = w.entries
  cursor : w'.cursor = w.cursor
  journal : w'.journal = w.journal
  objects : ∀ id, Upkeep w id (w.objects.find id) (w'.objects.find id)

section Upkeep

variable {w w' : Store} {env : Environment}

theorem Housekeeps.refl (w : Store) : Housekeeps w w := ⟨rfl, rfl, rfl, rfl, fun _ => .same _⟩

variable {id token : Text}

theorem housekeeps_setObject {o next : Object} (hFound : w.objects.find id = some o)
    (hID : next.id = o.id) (h : Upkeep w id (some o) (some next)) : Housekeeps w (w.setObject next) := by
  refine ⟨rfl, rfl, rfl, rfl, fun other => ?_⟩
  obtain ⟨-, rfl⟩ := find_eq_some_iff.mp hFound
  change Upkeep w other (w.objects.find other) ((w.objects.set next).find other)
  by_cases hSame : other = o.id
  · subst hSame
    have hSet : (w.objects.set next).find o.id = some next := by
      rw [← hID] at hFound ⊢
      exact find_set_self hFound
    rw [hFound, hSet]
    exact h
  · rw [find_set_of_ne (hID ▸ hSame)]
    exact .same _

theorem reserveObject_housekeeps (h : w.reserveObject env id = .ok w') : Housekeeps w w' := by
  replace h := past_guard h
  obtain ⟨_, -, h⟩ := bind_ok h
  split at h
  · split at h
    · split at h
      · cases pure_ok h
        exact .refl w
      · cases h
    · cases h
  · next hNone =>
    replace h := past_guard h
    split at h
    · cases h
    next objects hIns =>
    cases pure_ok h
    refine ⟨rfl, rfl, rfl, rfl, fun other => ?_⟩
    rw [find_insert hIns]
    split
    · next hSame =>
      obtain rfl : other = id := hSame
      rw [hNone]
      exact .reserved rfl ⟨_, rfl⟩ rfl
    · exact .same _

theorem markObjectReady_housekeeps {content : Content}
    (hStarter : ∀ id o, w.objects.find id = some o → o.origin = .starter → o.state = .current)
    (h : w.markObjectReady env id content = .ok w') : Housekeeps w w' := by
  replace h := past_guard h
  obtain ⟨_, -, h⟩ := bind_ok h
  replace h := past_guard h
  split at h
  · cases h
  next o hFound =>
  split at h
  · next expiresAt hState =>
    replace h := past_guard h
    split at h
    · split at h
      · cases pure_ok h
        exact .refl w
      · cases h
    · next hCont =>
      replace h := past_guard h
      replace h := past_guard h
      cases pure_ok h
      have hStaged : o.state ≠ .current := by rw [hState]; nofun
      have hOrig : o.origin = .attempt := by
        cases hOrig : o.origin with
        | starter => exact absurd (hStarter id o hFound hOrig) hStaged
        | attempt => rfl
      exact housekeeps_setObject hFound rfl (.aged hOrig rfl hStaged hStaged (.inl hCont) fun h => h)
  · cases h

variable {now : Instant}

theorem markObjectReclaimable_housekeeps
    (h : w.markObjectReclaimable now id = .ok w') : Housekeeps w w' := by
  replace h := past_guard h
  split at h
  · cases h
  next o hFound =>
  split at h
  · next expiresAt hOrig hState =>
    split at h
    · cases ok.inj h
      exact housekeeps_setObject hFound rfl
        (.aged hOrig rfl (by rw [hState]; nofun) nofun (.inr rfl) fun _ => rfl)
    · cases h
  · cases h

variable {o : Object}

theorem isDue_attempt (h : w.isDue now o) : o.origin = .attempt ∧ o.state ≠ .current := by
  unfold Store.isDue Store.due at h
  split at h
  · next hOrig hState => exact ⟨hOrig, by rw [hState]; nofun⟩
  · next hOrig hState => exact ⟨hOrig, by rw [hState]; nofun⟩
  · next hOrig hState => exact ⟨hOrig, by rw [hState]; nofun⟩
  · cases h

theorem claimed_aged (h : w.isDue now o) :
    Upkeep w id (some o) (some (Store.claimed now token o)) := by
  obtain ⟨hOrig, hState⟩ := isDue_attempt h
  unfold Store.claimed
  split
  · exact .aged hOrig rfl hState nofun (.inr rfl) fun _ => rfl
  · exact .aged hOrig rfl hState nofun (.inr rfl) fun _ => rfl
  · exact .aged hOrig rfl hState nofun (.inr rfl) fun _ => rfl

theorem claimObjectsForCleanup_housekeeps {limit : Nat} {locked : Text → Bool}
    (h : w.claimObjectsForCleanup now limit token locked = .ok w') : Housekeeps w w' := by
  replace h := past_guard h
  cases ok.inj h
  refine ⟨rfl, rfl, rfl, rfl, fun id => ?_⟩
  rw [find_mapRows]
  cases hFind : w.objects.find id with
  | none => exact .same _
  | some o =>
    rw [map_some]
    split
    · next hCandidate =>
      have hMem := mem_of_mem_take (contains_iff_mem.mp hCandidate)
      have hDue := (mem_filter.mp (mem_mergeSort.mp hMem)).2
      rw [and_eq_true] at hDue
      exact claimed_aged hDue.1
    · exact .same _

/-- The completion of a cleanup that removes a row is by the token that claimed it, and nothing refers
to the object. -/
theorem completeObjectCleanup_ok (hFound : w.objects.find id = some o)
    (h : w.completeObjectCleanup id token = .ok w') :
    o.origin = .attempt ∧ ∃ reclaimAfter claimedAt retiredBy,
      o.state = .claimed reclaimAfter claimedAt token retiredBy ∧ w.unreferenced o retiredBy ∧
      w' = { w with objects := w.objects.keep fun x => x.id ≠ id } := by
  obtain ⟨-, hDone⟩ := guard_ok h
  rw [hFound] at hDone
  dsimp only at hDone
  split at hDone
  · next reclaimAfter claimedAt holder retiredBy hOrig hState =>
    split at hDone
    · next hBoth =>
      obtain ⟨rfl, hFree⟩ := hBoth
      exact ⟨hOrig, reclaimAfter, claimedAt, retiredBy, hState, hFree, (ok.inj hDone).symm⟩
    · cases hDone
  · cases hDone

theorem completeObjectCleanup_of_none (hNone : w.objects.find id = none)
    (h : w.completeObjectCleanup id token = .ok w') : w' = w := by
  replace h := past_guard h
  rw [hNone] at h
  exact (ok.inj h).symm

theorem unreferenced_iff {retiredBy : Option Text} :
    w.unreferenced o retiredBy ↔ (∀ e ∈ w.entries.rows, e.objectID ≠ some o.id) ∧ o.id ∉ w.manifest ∧
      ∀ outcome ∈ w.outcomes, o.id ∉ outcome.protectedIDs ∧ some outcome.auditEventID ≠ retiredBy := by
  simp only [Store.unreferenced, and_eq_true, not_eq_true', any_eq_false, decide_eq_true_eq,
    contains_eq_mem, decide_eq_false_iff_not]
  constructor
  · rintro ⟨⟨⟨hEnts, hManifest⟩, hProtected⟩, hRet⟩
    exact ⟨hEnts, hManifest, fun x hx => ⟨hProtected x hx, hRet x hx⟩⟩
  · rintro ⟨hEnts, hManifest, hOutcomes⟩
    exact ⟨⟨⟨hEnts, hManifest⟩, fun x hx => (hOutcomes x hx).1⟩, fun x hx => (hOutcomes x hx).2⟩

theorem completeObjectCleanup_housekeeps (h : w.completeObjectCleanup id token = .ok w') :
    Housekeeps w w' := by
  cases hFound : w.objects.find id with
  | none =>
    rw [completeObjectCleanup_of_none hFound h]
    exact .refl w
  | some o =>
    obtain ⟨hOrig, reclaimAfter, claimedAt, retiredBy, hState, hFree, rfl⟩ := completeObjectCleanup_ok hFound h
    obtain ⟨-, rfl⟩ := find_eq_some_iff.mp hFound
    refine ⟨rfl, rfl, rfl, rfl, fun other => ?_⟩
    rw [find_keep]
    by_cases hSame : other = o.id
    · subst hSame
      rw [hFound, filter_some, if_neg (by simp)]
      exact .deleted hOrig (by rw [Object.isRetired, hState]) (unreferenced_iff.mp hFree).1
    have hKept : (w.objects.find other).filter (fun x => decide (x.id ≠ o.id)) = w.objects.find other := by
      cases hOther : w.objects.find other with
      | none => rfl
      | some x =>
        obtain ⟨-, rfl⟩ := find_eq_some_iff.mp hOther
        rw [filter_some, if_pos (by simpa using hSame)]
    rw [hKept]
    exact .same _

theorem releaseObjectCleanup_housekeeps
    (h : w.releaseObjectCleanup now id token = .ok w') : Housekeeps w w' := by
  replace h := past_guard h
  split at h
  · cases h
  next o hFound =>
  split at h
  · next reclaimAfter claimedAt holder retiredBy hOrig hState =>
    split at h
    · cases ok.inj h
      exact housekeeps_setObject hFound rfl
        (.aged hOrig rfl (by rw [hState]; nofun) nofun (.inr rfl) fun _ => rfl)
    · cases h
  · cases h

end Upkeep

/-! ## Steps -/

structure Mutates (env : Environment) (m : Mutation) (effect : Effect) (w mid w' : Store) : Prop where
  applies : Applies env m w mid effect
  capacity : w'.capacity = mid.capacity
  entries : w'.entries = mid.entries
  objects : w'.objects = mid.objects
  cursor : w'.cursor = w.cursor + 1
  journal : w'.journal = (w.journal ++ [m.change effect (w.cursor + 1) env.now]).filter fun c =>
    w.cursor + 1 < c.cursor + journalRetention

theorem Applies.journal {env : Environment} {m : Mutation} {w mid : Store} {effect : Effect}
    (h : Applies env m w mid effect) : mid.cursor = w.cursor ∧ mid.journal = w.journal := by
  cases h <;> exact ⟨rfl, rfl⟩

theorem Applies.capacity {env : Environment} {m : Mutation} {w mid : Store} {effect : Effect}
    (h : Applies env m w mid effect) : mid.capacity = w.capacity := by
  cases h <;> rfl

theorem Steps.cases {w w' : Store}
    (hStarter : ∀ id o, w.objects.find id = some o → o.origin = .starter → o.state = .current)
    (hDirs : ∀ e ∈ w.entries.rows, e.kind = .directory → e.objectID = none) (h : Steps w w') :
    Housekeeps w w' ∨ ∃ env m effect mid, Mutates env m effect w mid w' := by
  obtain ⟨operation, h⟩ := h
  cases operation with
  | applyMutation env m =>
    obtain ⟨mid, effect, hApp, hAfter⟩ := applyMutation_applies hDirs h
    obtain ⟨hCursor, hJournal⟩ := hApp.journal
    rw [hAfter]
    exact .inr ⟨env, m, effect, mid, hApp, rfl, rfl, rfl, by rw [hCursor], by rw [hCursor, hJournal]⟩
  | reserveObject env id => exact .inl (reserveObject_housekeeps h)
  | markObjectReady env id content => exact .inl (markObjectReady_housekeeps hStarter h)
  | markObjectReclaimable now id => exact .inl (markObjectReclaimable_housekeeps h)
  | claimObjectsForCleanup now limit token locked => exact .inl (claimObjectsForCleanup_housekeeps h)
  | completeObjectCleanup id token => exact .inl (completeObjectCleanup_housekeeps h)
  | releaseObjectCleanup now id token => exact .inl (releaseObjectCleanup_housekeeps h)
  | elsewhere outcomes manifest =>
    cases ok.inj h
    exact .inl ⟨rfl, rfl, rfl, rfl, fun _ => .same _⟩

end Proctor.Workspace
