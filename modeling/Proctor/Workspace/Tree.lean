import Proctor.Workspace.Cleanup

/-! # The Workspace is a tree within its limits

Paths are canonical and distinct, the parent of a nested entry is a directory entry, and the entries
and their bytes stay within the capacity. The one operation whose updates go through intermediate
states is the move of a subtree: no new path lies in the old subtree, since that would put one of the
two roots below the other, so that the updates cannot collide in any order. -/
namespace Proctor.Workspace

open Fallible Keyed List Table Entry
open Option (bind_some some)

structure Tree (w : Store) : Prop where
  valid : ∀ e ∈ w.entries.rows, validPath e.path = true
  distinct : (w.entries.rows.map Entry.path).Nodup
  parents : ∀ e ∈ w.entries.rows, w.HasParent e.path
  count : w.entries.rows.length ≤ w.capacity.maximumEntries
  bytes : w.usageBytes ≤ w.capacity.maximumTotalBytes

section Paths

variable {w : Store}

theorem Tree.path_injective (hTree : Tree w) {d e : Entry} (hd : d ∈ w.entries.rows) (he : e ∈ w.entries.rows)
    (h : d.path = e.path) : d = e :=
  inj_on_of_nodup_map hTree.distinct hd he h

theorem Tree.ancestor (hTree : Tree w) {path : Text} {e : Entry} (he : e ∈ w.entries.rows)
    (hBelow : below path e.path) : ∃ d ∈ w.entries.rows, d.path = path ∧ d.kind = .directory := by
  -- the parents of an entry get shorter
  induction hLen : e.path.length using Nat.strongRecOn generalizing e with
  | ind n ih =>
    obtain ⟨parent, hPar, hIn⟩ := parentPath_of_below hBelow
    obtain ⟨d, hd, hPath, hKind⟩ := hTree.parents e he parent hPar
    rw [inSubtree, Bool.or_eq_true, decide_eq_true_eq] at hIn
    rcases hIn with rfl | hAbove
    · exact ⟨d, hd, hPath, hKind⟩
    · have hShorter := length_lt_of_below (below_of_parentPath hPar)
      exact ih d.path.length (by rw [hPath, ← hLen]; exact hShorter) hd (by rw [hPath]; exact hAbove) rfl

end Paths

/-! ## Moves -/

section Moves

variable {w : Store} {destination : Text} {e : Entry}

theorem Tree.moved_apart (hTree : Tree w) (he : e ∈ w.entries.rows) (hCheck : w.CanMove e.path destination)
    {d : Entry} (hIn : inSubtree e.path d.path)
    (hMoved : inSubtree e.path (movedPath e.path destination d.path)) : destination = e.path := by
  rcases below_of_movedPath hIn hMoved with hSame | hBelow | hAbove
  · exact hSame
  · rw [hCheck.outside] at hBelow
    cases hBelow
  -- the destination is an ancestor of the root, and its directory stays where it is
  obtain ⟨a, ha, hPath, -⟩ := hTree.ancestor he hAbove
  have hRoot : inSubtree e.path e.path := inSubtree_iff.mpr ⟨[], .inl rfl, (append_nil _).symm⟩
  have hTaken : movedPath e.path destination e.path = destination := by
    rw [movedPath, drop_length, append_nil]
  have hMoves := hCheck.free e he hRoot a ha (hPath.trans hTaken.symm)
  obtain ⟨tail, -, hTail⟩ := inSubtree_iff.mp hMoves
  have hShorter := length_lt_of_below hAbove
  rw [← hPath, hTail, length_append] at hShorter
  omega

theorem movedPath_self {root path : Text} (h : inSubtree root path) : movedPath root root path =
    path := by
  obtain ⟨tail, -, rfl⟩ := inSubtree_iff.mp h
  exact movedPath_append root root tail

theorem Tree.update_free (hTree : Tree w) (he : e ∈ w.entries.rows) (hCheck : w.CanMove e.path destination)
    {moves : List (Text × Text)} (hMoves : ∀ move ∈ moves, move ∈ w.moving e.path destination)
    (hNodup : (moves.map Prod.fst).Nodup) {d x : Entry} (hd : d ∈ w.entries.rows)
    (hIn : inSubtree e.path d.path) (hx : x ∈ w.entries.rows)
    (hPath : (x.moved moves).path = movedPath e.path destination d.path) : x = d := by
  by_cases hMoved : x.id ∈ moves.map Prod.fst
  · obtain ⟨move, hMove, hID⟩ := mem_map.mp hMoved
    obtain ⟨y, hy, rfl⟩ := mem_map.mp (hMoves move hMove)
    obtain ⟨hRow, hyIn⟩ := mem_filter.mp hy
    obtain rfl := inj_on_of_nodup_map w.entries.distinct hRow hx hID
    rw [moved_of_mem hNodup hMove] at hPath
    exact hTree.path_injective hx hd (movedPath_injective hyIn hIn hPath)
  · rw [moved_of_notMem hMoved] at hPath
    have hxIn := hCheck.free d hd hIn x hx hPath
    have hSame := hTree.moved_apart he hCheck hIn (hPath ▸ hxIn)
    rw [hSame, movedPath_self hIn] at hPath
    exact hTree.path_injective hx hd hPath

theorem Tree.updates_succeed (hTree : Tree w) (he : e ∈ w.entries.rows) (hCheck : w.CanMove e.path destination)
    {order : List (Text × Text)} (hPerm : order.Perm (w.moving e.path destination)) :
    ∃ w', order.foldlM Store.updatePath w = .ok w' := by
  have hNodup : (order.map Prod.fst).Nodup := (hPerm.map Prod.fst).nodup_iff.mpr nodup_moving
  -- `v` is the store after the updates `done`, of the order `done ++ rest`
  suffices hLoop : ∀ (rest done : List (Text × Text)) (v : Store), order = done ++ rest →
      v.entries.rows = w.entries.rows.map (moved done) → ∃ w', rest.foldlM Store.updatePath v = .ok w' from
    hLoop order [] w rfl (map_id _).symm
  intro rest
  induction rest with
  | nil => exact fun _ v _ _ => ⟨v, rfl⟩
  | cons move rest ih =>
    intro done v hOrder hRows
    have hMove : move ∈ w.moving e.path destination :=
      hPerm.mem_iff.mp (hOrder ▸ mem_append_right _ mem_cons_self)
    obtain ⟨d, hd, rfl⟩ := mem_map.mp hMove
    obtain ⟨hRow, hIn⟩ := mem_filter.mp hd
    have hDone : ∀ other ∈ done, other ∈ w.moving e.path destination := fun other hOther =>
      hPerm.mem_iff.mp (hOrder ▸ mem_append_left _ hOther)
    have hDist : (done.map Prod.fst).Nodup := by
      rw [hOrder, map_append] at hNodup
      exact (nodup_append.mp hNodup).1
    have hFree : ¬(v.entries.rows.any fun x =>
        x.path = movedPath e.path destination d.path && x.id ≠ d.id) := by
      rw [any_eq_true]
      rintro ⟨y, hy, hBoth⟩
      simp only [Bool.and_eq_true, decide_eq_true_eq] at hBoth
      rw [hRows] at hy
      obtain ⟨x, hx, rfl⟩ := mem_map.mp hy
      have hSame := hTree.update_free he hCheck hDone hDist hRow hIn hx hBoth.1
      rw [moved_id, hSame] at hBoth
      exact hBoth.2 rfl
    cases hUpd : v.updatePath (d.id, movedPath e.path destination d.path) with
    | error fault =>
      rw [Store.updatePath, if_neg hFree] at hUpd
      cases hUpd
    | ok next =>
      obtain ⟨-, hNext⟩ := updatePath_ok hUpd
      obtain ⟨w', hRest⟩ := ih (done ++ [_]) next (by rw [hOrder, append_assoc]; rfl) (by
        rw [hNext, hRows, map_map]
        refine map_congr_left fun x _ => ?_
        rw [moved, foldl_append]
        rfl)
      exact ⟨w', bind_ok_iff.mpr ⟨next, hUpd, hRest⟩⟩

end Moves

/-! ## Preservation -/

section Preservation

variable {w w' : Store} {env : Environment} {m : Mutation} {effect : Effect}

theorem HasParent.mono {path : Text} (h : w.HasParent path)
    (hRows : ∀ d ∈ w.entries.rows, d.kind = .directory → parentPath path = some d.path →
      ∃ x ∈ w'.entries.rows, x.path = d.path ∧ x.kind = .directory) : w'.HasParent path := by
  intro parent hPar
  obtain ⟨d, hd, rfl, hKind⟩ := h parent hPar
  exact hRows d hd hKind hPar

variable {e : Entry} {entries : Table Entry.id} {objects : Table Object.id}

section

variable (hTree : Tree w)
include hTree

theorem insert_tree
    (hValid : validPath e.path) (hPar : w.HasParent e.path)
    (hCount : w.entries.rows.length + 1 ≤ w.capacity.maximumEntries)
    (hFree : ∀ x ∈ w.entries.rows, x.path ≠ e.path) (hIns : w.entries.insert e = some entries)
    (hBytes : { w with entries := entries, objects := objects }.usageBytes ≤ w.capacity.maximumTotalBytes) :
    Tree { w with entries := entries, objects := objects } := by
  obtain ⟨-, hRows⟩ := insert_eq_some hIns
  have hKeeps : ∀ {path : Text}, w.HasParent path →
      Store.HasParent { w with entries := entries, objects := objects } path := fun h =>
    HasParent.mono h fun d hd hKind _ => ⟨d, hRows ▸ mem_append_left _ hd, rfl, hKind⟩
  refine ⟨fun x hx => ?_, ?_, fun x hx => ?_, ?_, hBytes⟩
  · rw [hRows, mem_append, mem_singleton] at hx
    rcases hx with hx | rfl
    · exact hTree.valid x hx
    · exact hValid
  · rw [hRows, map_append, nodup_append]
    refine ⟨hTree.distinct, nodup_singleton _, fun a ha b hb => ?_⟩
    obtain ⟨x, hx, rfl⟩ := mem_map.mp ha
    rw [mem_singleton.mp hb]
    exact hFree x hx
  · rw [hRows, mem_append, mem_singleton] at hx
    rcases hx with hx | rfl
    · exact hKeeps (hTree.parents x hx)
    · exact hKeeps hPar
  · rw [hRows, length_append]
    exact hCount

theorem moveEntry_tree {destination : Text}
    (hCheck : w.CanMove e.path destination)
    (hRows : entries.rows = w.entries.rows.map (renamed e.path destination)) :
    Tree { w with entries := entries } := by
  have hMoved : ∀ {d : Entry}, inSubtree e.path d.path →
      (d.renamed e.path destination).path = movedPath e.path destination d.path := fun hIn => by
    rw [renamed, if_pos hIn]
  have hStays : ∀ {d : Entry}, ¬inSubtree e.path d.path → d.renamed e.path destination = d := fun hOut => by
    rw [renamed, if_neg hOut]
  refine ⟨fun x hx => ?_, ?_, fun x hx => ?_, ?_, ?_⟩
  · rw [hRows] at hx
    obtain ⟨d, hd, rfl⟩ := mem_map.mp hx
    by_cases hIn : inSubtree e.path d.path = true
    · rw [hMoved hIn]
      exact hCheck.valid d hd hIn
    · rw [hStays hIn]
      exact hTree.valid d hd
  · rw [hRows, map_map]
    refine (List.Nodup.of_map _ w.entries.distinct).map_on fun a ha b hb hSame => ?_
    change (a.renamed _ _).path = (b.renamed _ _).path at hSame
    by_cases hA : inSubtree e.path a.path = true <;> by_cases hB : inSubtree e.path b.path = true
    · rw [hMoved hA, hMoved hB] at hSame
      exact hTree.path_injective ha hb (movedPath_injective hA hB hSame)
    · rw [hMoved hA, hStays hB] at hSame
      exact absurd (hCheck.free a ha hA b hb hSame.symm) hB
    · rw [hStays hA, hMoved hB] at hSame
      exact absurd (hCheck.free b hb hB a ha hSame) hA
    · rw [hStays hA, hStays hB] at hSame
      exact hTree.path_injective ha hb hSame
  · rw [hRows] at hx
    obtain ⟨d, hd, rfl⟩ := mem_map.mp hx
    have hRenamed : ∀ x ∈ w.entries.rows, x.renamed e.path destination ∈ entries.rows := fun x hx =>
      hRows ▸ mem_map_of_mem hx
    by_cases hIn : inSubtree e.path d.path = true
    · rw [hMoved hIn]
      rw [inSubtree, Bool.or_eq_true, decide_eq_true_eq] at hIn
      rcases hIn with hRoot | hBelow
      · -- the root goes under the parent of the destination, which does not move
        rw [hRoot, movedPath, drop_length, append_nil]
        refine HasParent.mono hCheck.parent fun p hp hKind hPar => ?_
        have hOut : ¬inSubtree e.path p.path := by
          intro hAbove
          have hBelow := below_of_inSubtree hAbove (below_of_parentPath hPar)
          rw [hCheck.outside] at hBelow
          cases hBelow
        exact ⟨p, hStays hOut ▸ hRenamed p hp, rfl, hKind⟩
      · -- the parent of a descendant moves with it
        intro parent hPar
        obtain ⟨old, hOld, hOldIn⟩ := parentPath_of_below hBelow
        rw [parentPath_movedPath hBelow hOld] at hPar
        obtain ⟨p, hp, hPath, hKind⟩ := hTree.parents d hd old hOld
        refine ⟨p.renamed e.path destination, hRenamed p hp, ?_, ?_⟩
        · rw [hMoved (hPath ▸ hOldIn), hPath, some.inj hPar]
        · rw [(p.renamed_select e.path destination).2.1, hKind]
    · rw [hStays hIn]
      refine HasParent.mono (hTree.parents d hd) fun p hp hKind hPar => ?_
      have hOut : ¬inSubtree e.path p.path := by
        intro hAbove
        have hBelow := below_of_inSubtree hAbove (below_of_parentPath hPar)
        exact hIn (by rw [inSubtree, hBelow, Bool.or_true])
      exact ⟨p, hStays hOut ▸ hRenamed p hp, rfl, hKind⟩
  · rw [hRows, length_map]
    exact hTree.count
  · refine le_of_eq_of_le ?_ hTree.bytes
    change (entries.rows.map _).sum = (w.entries.rows.map _).sum
    rw [hRows, map_map]
    congr 1
    refine map_congr_left fun d _ => ?_
    simp only [Function.comp_apply, contentOf_eq, (d.renamed_select e.path destination).2.2]
    rfl

theorem replaceFile_tree {o : Object} {old content : Content}
    (hEntry : w.entries.find m.entryID = some e) (hOld : w.contentOf e = some old)
    (hReady : w.Ready m.objectID o content)
    (hBytes : w.usageBytes + content.sizeBytes ≤ w.capacity.maximumTotalBytes + old.sizeBytes)
    (hCont : ∀ id, Store.contentAt { w with
        entries := w.entries.set { e with objectID := some m.objectID }, objects := objects } id = w.contentAt id) :
    Tree { w with entries := w.entries.set { e with objectID := some m.objectID }, objects := objects } := by
  obtain ⟨hMem, hID⟩ := find_eq_some_iff.mp hEntry
  have hRow : w.entries.find ({ e with objectID := some m.objectID } : Entry).id = some e := hID ▸ hEntry
  -- the new row has the path and the kind of the old one
  have hSame : ∀ x ∈ w.entries.rows, ∃ y ∈ (w.entries.set { e with objectID := some m.objectID }).rows,
      y.path = x.path ∧ y.kind = x.kind := by
    intro x hx
    by_cases hOther : x.id = e.id
    · obtain rfl := inj_on_of_nodup_map w.entries.distinct hx hMem hOther
      exact ⟨_, (mem_set hRow).mpr (.inl rfl), rfl, rfl⟩
    · exact ⟨x, (mem_set hRow).mpr (.inr ⟨hx, hOther⟩), rfl, rfl⟩
  have hBack : ∀ y ∈ (w.entries.set { e with objectID := some m.objectID }).rows,
      ∃ x ∈ w.entries.rows, x.path = y.path := by
    intro y hy
    rcases (mem_set hRow).mp hy with rfl | ⟨hy, -⟩
    · exact ⟨e, hMem, rfl⟩
    · exact ⟨y, hy, rfl⟩
  refine ⟨fun y hy => ?_, ?_, fun y hy => ?_, ?_, ?_⟩
  · obtain ⟨x, hx, hPath⟩ := hBack y hy
    exact hPath ▸ hTree.valid x hx
  · change ((w.entries.rows.map _).map _).Nodup
    rw [map_map]
    refine (map_congr_left fun x hx => ?_).symm ▸ hTree.distinct
    simp only [Function.comp_apply]
    split
    · next hOther => rw [inj_on_of_nodup_map w.entries.distinct hx hMem hOther]
    · rfl
  · obtain ⟨x, hx, hPath⟩ := hBack y hy
    rw [← hPath]
    refine HasParent.mono (hTree.parents x hx) fun d hd hKind _ => ?_
    obtain ⟨z, hz, hzPath, hzKind⟩ := hSame d hd
    exact ⟨z, hz, hzPath, hzKind.trans hKind⟩
  · change (w.entries.rows.map _).length ≤ _
    rw [length_map]
    exact hTree.count
  · rw [usageBytes_eq, sizeOf_congr hCont]
    have hSum := sum_map_set hRow w.sizeOf
    have hOldSize : w.sizeOf e = old.sizeBytes := by
      rw [Store.sizeOf, hOld]
      rfl
    have hNewSize : w.sizeOf { e with objectID := some m.objectID } = content.sizeBytes := by
      rw [Store.sizeOf, contentOf_eq, bind_some, Store.contentAt, hReady.found, bind_some,
        hReady.content]
      rfl
    rw [usageBytes_eq] at hBytes
    change ((w.entries.set _).rows.map w.sizeOf).sum ≤ w.capacity.maximumTotalBytes
    omega

theorem deleteEntry_tree
    (hEntry : w.entries.find m.entryID = some e)
    (hLeaf : m.recursive = false → e.kind = .directory → ∀ d ∈ w.entries.rows, below e.path d.path = false)
    (hCont : ∀ id, Store.contentAt { w with entries := w.entries.keep (m.keeps e), objects := objects } id =
      w.contentAt id) :
    Tree { w with entries := w.entries.keep (m.keeps e), objects := objects } := by
  obtain ⟨hMem, hID⟩ := find_eq_some_iff.mp hEntry
  have hSublist : (w.entries.keep (m.keeps e)).rows.Sublist w.entries.rows := filter_sublist
  -- what stays keeps its parent: nothing below the deleted entries stays
  have hParents : ∀ x ∈ w.entries.rows, m.keeps e x → ∀ d ∈ w.entries.rows, d.kind = .directory →
      parentPath x.path = some d.path → m.keeps e d := by
    intro x hx hKept d hd hKind hPar
    have hBelow := below_of_parentPath hPar
    unfold Mutation.keeps at hKept ⊢
    split at hKept
    · next hRec =>
      rw [if_pos hRec, Bool.not_eq_true', Bool.eq_false_iff]
      intro hIn
      rw [inSubtree, below_of_inSubtree hIn hBelow, Bool.or_true] at hKept
      cases hKept
    · next hRec =>
      rw [if_neg hRec, decide_eq_true_eq]
      intro hSame
      obtain rfl := inj_on_of_nodup_map w.entries.distinct hd hMem (hSame.trans hID.symm)
      rw [hLeaf (Bool.eq_false_iff.mpr hRec) hKind x hx] at hBelow
      cases hBelow
  refine ⟨fun x hx => hTree.valid x (hSublist.mem hx), hTree.distinct.sublist (hSublist.map _), fun x hx => ?_,
    hSublist.length_le.trans hTree.count, ?_⟩
  · obtain ⟨hx, hKept⟩ := mem_filter.mp hx
    exact HasParent.mono (hTree.parents x hx) fun d hd hKind hPar =>
      ⟨d, mem_filter.mpr ⟨hd, hParents x hx hKept d hd hKind hPar⟩, rfl, hKind⟩
  · rw [usageBytes_eq, sizeOf_congr hCont]
    refine le_trans ?_ hTree.bytes
    exact (hSublist.map w.sizeOf).sum_le_sum fun _ _ => Nat.zero_le _

theorem Applies.tree (h : Applies env m w w' effect) : Tree w' := by
  have hCont := h.contentAt
  cases h with
  | @createFile o content entries _ hOp hValid hPar hCount hReady hBytes hFree hIns =>
    refine insert_tree hTree hValid hPar hCount hFree hIns ?_
    rw [usageBytes_eq, sizeOf_congr hCont]
    rw [(insert_eq_some hIns).2, map_append, sum_append, map_singleton]
    have hSize : w.sizeOf ⟨m.entryID, .file, m.destinationPath, some m.objectID⟩ = content.sizeBytes := by
      rw [Store.sizeOf, contentOf_eq, bind_some, Store.contentAt, hReady.found, bind_some,
        hReady.content]
      rfl
    rw [hSize]
    exact hBytes
  | @createDirectory entries _ hOp hValid hPar hCount hFree hIns =>
    refine insert_tree hTree hValid hPar hCount hFree hIns ?_
    change (entries.rows.map w.sizeOf).sum ≤ _
    rw [(insert_eq_some hIns).2, map_append, sum_append, map_singleton]
    exact hTree.bytes
  | replaceFile hOp hEntry hKind hOld hReady hBytes hObjs =>
    exact replaceFile_tree hTree hEntry hOld hReady hBytes hCont
  | moveEntry hOp hEntry hCheck hRows =>
    exact moveEntry_tree hTree hCheck hRows
  | deleteEntry retiredBy hOp hEntry hLeaf hObjs => exact deleteEntry_tree hTree hEntry hLeaf hCont

end

theorem Housekeeps.contentOf (hSound : Sound w) (h : Housekeeps w w') (he : e ∈ w.entries.rows) :
    w'.contentOf e = w.contentOf e := by
  rw [contentOf_eq, contentOf_eq]
  cases hSelect : e.objectID with
  | none => rfl
  | some id =>
    rw [bind_some, bind_some, Store.contentAt, Store.contentAt, h.find_selected hSound he hSelect]

theorem Housekeeps.tree (hSound : Sound w) (hTree : Tree w) (h : Housekeeps w w') : Tree w' := by
  refine ⟨h.entries ▸ hTree.valid, h.entries ▸ hTree.distinct, fun e he => ?_, ?_, ?_⟩
  · rw [h.entries] at he
    exact HasParent.mono (hTree.parents e he) fun d hd hKind _ => ⟨d, h.entries ▸ hd, rfl, hKind⟩
  · rw [h.entries, h.capacity]
    exact hTree.count
  · rw [usageBytes_congr h.entries fun e he => h.contentOf hSound he, h.capacity]
    exact hTree.bytes

theorem Tree.congr (hTree : Tree w) (hCap : w'.capacity = w.capacity) (hEnts : w'.entries = w.entries)
    (hObjs : w'.objects = w.objects) : Tree w' := by
  have hCont : ∀ id, w'.contentAt id = w.contentAt id := fun id => by
    rw [Store.contentAt, hObjs, Store.contentAt]
  refine ⟨hEnts ▸ hTree.valid, hEnts ▸ hTree.distinct, fun e he => ?_, ?_, ?_⟩
  · rw [hEnts] at he
    exact HasParent.mono (hTree.parents e he) fun d hd hKind _ => ⟨d, hEnts ▸ hd, rfl, hKind⟩
  · rw [hEnts, hCap]
    exact hTree.count
  · rw [usageBytes_congr hEnts fun e _ => congrFun (contentOf_congr hCont) e, hCap]
    exact hTree.bytes

theorem Steps.tree (hSound : Sound w) (hTree : Tree w) (h : Steps w w') : Tree w' := by
  rcases h.cases hSound.starter hSound.directories with hHouse | ⟨env, m, effect, mid, hMut⟩
  · exact hHouse.tree hSound hTree
  · exact (hMut.applies.tree hTree).congr hMut.capacity hMut.entries hMut.objects

theorem Runs.tree (hSound : Sound w) (hTree : Tree w) (h : Runs w w') : Tree w' := by
  induction h with
  | refl => exact hTree
  | tail hRun hStep ih => exact hStep.tree (Runs.sound hSound hRun) ih

theorem Runs.capacity (hSound : Sound w) (h : Runs w w') : w'.capacity = w.capacity := by
  induction h with
  | refl => rfl
  | tail hRun hStep ih =>
    have hBefore := Runs.sound hSound hRun
    rcases hStep.cases hBefore.starter hBefore.directories with hHouse | ⟨env, m, effect, mid, hMut⟩
    · rw [hHouse.capacity, ih]
    · rw [hMut.capacity, hMut.applies.capacity, ih]

theorem insertFromStarter_capacity {capacity : Capacity} {taken : Text → Bool} {now : Instant}
    {starter : List Starter}
    (h : insertFromStarter capacity taken now starter = .ok w) : w.capacity = capacity := by
  refine (foldlM_rel (R := fun a b : Store => b.capacity = a.capacity) (I := fun _ => True) (fun _ => rfl)
    (fun _ _ _ hFirst hNext => hNext.trans hFirst) (fun _ _ _ h => h) (fun a b s _ hStep => ?_) trivial h : _)
  unfold insertStarter at hStep
  split at hStep
  · obtain ⟨entries, -, -, rfl⟩ := insertEntry_ok hStep
    rfl
  replace hStep := past_guard hStep
  split at hStep
  · cases hStep
  · obtain ⟨entries, -, -, rfl⟩ := insertEntry_ok hStep
    rfl

end Preservation

/-- Every run from a tree leads to a tree within the same capacity. A move that commits replaces the
prefix of the moved entry and its descendants and keeps every other entry, and once the checks are
passed no order of its updates collides. -/
theorem workspace_is_a_tree {capacity : Capacity} {taken : Text → Bool} {now : Instant}
    {starter : List Starter} {start w : Store}
    (hStart : insertFromStarter capacity taken now starter = .ok start)
    (hTree : Tree start) (hRun : Runs start w) :
    Tree w ∧ w.capacity = capacity ∧
    (∀ env m w', m.operation = .moveEntry → w.applyMutation env m = .ok w' →
      ∃ e, w.entries.find m.entryID = some e ∧ w'.entries.rows = w.entries.rows.map fun d =>
        if inSubtree e.path d.path then { d with path := movedPath e.path m.destinationPath d.path } else d) ∧
    ∀ e ∈ w.entries.rows, ∀ destination, w.checkMove e.path destination = .ok () →
      ∀ order : List (Text × Text), order.Perm (w.moving e.path destination) →
        ∃ w', order.foldlM Store.updatePath w = .ok w' := by
  have hSound := (insertFromStarter_admitted hStart).sound
  have hAfter := Runs.tree hSound hTree hRun
  refine ⟨hAfter, (Runs.capacity hSound hRun).trans (insertFromStarter_capacity hStart),
    fun env m w' hOp h => ?_, fun e he destination hCheck order hPerm => ?_⟩
  · obtain ⟨mid, effect, hApp, hSame⟩ := applyMutation_applies (Runs.sound hSound hRun).directories h
    rw [hSame]
    cases hApp with
    | moveEntry _ hEntry _ hRows => exact ⟨_, hEntry, hRows⟩
    | createFile hOther | createDirectory hOther | replaceFile hOther | deleteEntry _ hOther =>
      cases hOp.symm.trans hOther
  · exact hAfter.updates_succeed he (checkMove_ok hCheck) hPerm

theorem tree_sample : Tree sampleStart := by
  refine ⟨by decide, by decide, fun e he => ?_, by decide, by decide⟩
  rw [mem_singleton.mp he]
  intro parent hPar
  cases hPar

theorem workspace_is_a_tree_file : Tree sampleNext :=
  (workspace_is_a_tree insertFromStarter_sample tree_sample runs_sample).1

end Proctor.Workspace
