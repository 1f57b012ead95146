import Proctor.Recent.Basic
import Proctor.Workspace.Tree

/-! # The journal reproduces the Workspace

A client that knows the tree as it was at some cursor reads the lines after it, page by page, and
applies them: a line creates, replaces or deletes one entry, or moves or deletes a whole subtree. The
result is the tree at the current cursor. The store keeps the recent lines only, and a client that is
too far behind is told to start over. -/
namespace Proctor.Workspace

open Fallible Keyed Recent List

structure Item where
  id : Text
  kind : EntryKind
  path : Text
  version : Text
  deriving DecidableEq, Repr

def Store.item (w : Store) (e : Entry) : Item := ⟨e.id, e.kind, e.path, ((w.contentOf e).map (·.version)).getD []⟩

def Store.view (w : Store) : List Item := w.entries.rows.map w.item

def applyChange (items : List Item) (c : Change) : List Item :=
  match c.operation with
  | .createFile | .createDirectory => items ++ [⟨c.entryID, c.entryKind, c.newPath, c.version⟩]
  | .replaceFile => items.map fun i => if i.id = c.entryID then { i with version := c.version } else i
  | .moveEntry => items.map fun i =>
      if inSubtree c.oldPath i.path then { i with path := movedPath c.oldPath c.newPath i.path } else i
  | .deleteEntry => items.filter fun i => if c.recursive then !inSubtree c.oldPath i.path else i.id ≠ c.entryID

/-- The lines after a cursor, page by page: each page is read after the last line of the one before. -/
inductive Reads (w : Store) (limit : Nat) : Int → List Change → Prop
  | last {after : Int} {page : Store.Page} (hPage : w.listJournal after limit = .ok page)
      (hFresh : page.refreshRequired = false) (hMore : page.hasMore = false) : Reads w limit after page.entries
  | more {after : Int} {page : Store.Page} {c : Change} {rest : List Change}
      (hPage : w.listJournal after limit = .ok page) (hFresh : page.refreshRequired = false)
      (hMore : page.hasMore = true) (hLast : page.entries.getLast? = some c)
      (hRest : Reads w limit c.cursor rest) : Reads w limit after (page.entries ++ rest)

/-! ## One line -/

section Lines

variable {w w' : Store} {env : Environment} {m : Mutation} {effect : Effect}

theorem item_congr (h : ∀ id, w'.contentAt id = w.contentAt id) : w'.item = w.item := by
  funext e
  rw [Store.item, contentOf_congr h]
  rfl

theorem Applies.view (h : Applies env m w w' effect) (cursor : Nat) :
    w'.view = applyChange w.view (m.change effect cursor env.now) := by
  have hItem := item_congr h.contentAt
  rw [Store.view, hItem]
  cases h with
  | @createFile o content entries _ hOp _ _ _ hReady _ _ hIns =>
    rw [Mutation.change, hOp]
    rw [(Table.insert_eq_some hIns).2, map_append, map_singleton]
    have hVersion : w.contentOf ⟨m.entryID, .file, m.destinationPath, some m.objectID⟩ = some content := by
      rw [contentOf_eq, Option.bind_some, Store.contentAt, hReady.found, Option.bind_some, hReady.content]
    rw [Store.item, hVersion]
    rfl
  | @createDirectory entries _ hOp _ _ _ _ hIns =>
    rw [Mutation.change, hOp]
    rw [(Table.insert_eq_some hIns).2, map_append]
    rfl
  | @replaceFile e old content o objects _ hOp hEntry hKind hOld hReady _ _ =>
    rw [Mutation.change, hOp]
    obtain ⟨hMem, hID⟩ := Table.find_eq_some_iff.mp hEntry
    have hVersion : w.contentOf { e with objectID := some m.objectID } = some content := by
      rw [contentOf_eq, Option.bind_some, Store.contentAt, hReady.found, Option.bind_some, hReady.content]
    change ((w.entries.rows.map _).map w.item) = (w.entries.rows.map w.item).map _
    rw [map_map, map_map]
    refine map_congr_left fun x hx => ?_
    change w.item (if x.id = e.id then _ else x) = if x.id = m.entryID then _ else w.item x
    rw [← hID]
    split
    · next hSame =>
      rw [inj_on_of_nodup_map w.entries.distinct hx hMem hSame, Store.item, hVersion]
      rfl
    · rfl
  | @moveEntry e entries _ _ hOp hEntry hCheck hRows =>
    rw [Mutation.change, hOp]
    change entries.rows.map w.item = (w.entries.rows.map w.item).map _
    rw [hRows, map_map, map_map]
    refine map_congr_left fun x _ => ?_
    change w.item (x.renamed e.path m.destinationPath) = if inSubtree e.path x.path = true then _ else w.item x
    unfold Entry.renamed
    split <;> rfl
  | @deleteEntry e objects _ retiredBy hOp hEntry _ _ =>
    rw [Mutation.change, hOp]
    change (w.entries.rows.filter (m.keeps e)).map w.item = (w.entries.rows.map w.item).filter _
    rw [filter_map]
    rfl

theorem Housekeeps.view (hSound : Sound w) (h : Housekeeps w w') : w'.view = w.view := by
  unfold Store.view
  rw [h.entries]
  refine map_congr_left fun e he => ?_
  rw [Store.item, h.contentOf hSound he]
  rfl

end Lines

/-! ## Runs -/

/-- Lines that the store still has at cursor `n`. -/
def recent (n : Nat) (c : Change) : Bool := n < c.cursor + journalRetention

structure Logged (w w' : Store) (changes : List Change) : Prop where
  cursor : w'.cursor = w.cursor + changes.length
  numbered : Numbered Change.cursor (w.cursor + 1) changes
  view : w'.view = changes.foldl applyChange w.view
  journal : ∀ history, w.journal = history.filter (recent w.cursor) →
    w'.journal = (history ++ changes).filter (recent w'.cursor)

section Runs

variable {w w' : Store}

theorem Logged.refl (w : Store) : Logged w w [] :=
  ⟨rfl, numbered_nil, rfl, fun history h => by rw [append_nil, h]⟩

theorem Logged.trans {v : Store} {first rest : List Change} (hFirst : Logged w v first)
    (hRest : Logged v w' rest) : Logged w w' (first ++ rest) where
  cursor := by
    rw [hRest.cursor, hFirst.cursor, length_append, add_assoc]
  numbered := by
    refine hFirst.numbered.append ?_
    have hNumbered := hRest.numbered
    rwa [hFirst.cursor, add_right_comm] at hNumbered
  view := by rw [hRest.view, hFirst.view, foldl_append]
  journal history h := by
    rw [← append_assoc]
    exact hRest.journal _ (hFirst.journal history h)

variable (hSound : Sound w)
include hSound

theorem Steps.logged (h : Steps w w') : ∃ changes, Logged w w' changes ∧
    changes.length ≤ 1 := by
  rcases h.cases hSound.starter hSound.directories with hHouse | ⟨env, m, effect, mid, hMut⟩
  · refine ⟨[], ⟨hHouse.cursor, numbered_nil, hHouse.view hSound, fun history hBefore => ?_⟩, Nat.zero_le 1⟩
    rw [hHouse.journal, hHouse.cursor, append_nil, hBefore]
  refine ⟨[m.change effect (w.cursor + 1) env.now], ⟨hMut.cursor, rfl, ?_, fun history hBefore => ?_⟩, le_rfl⟩
  · have hCont : ∀ id, w'.contentAt id = mid.contentAt id := fun id => by
      unfold Store.contentAt
      rw [hMut.objects]
    have hSame : w'.view = mid.view := by
      rw [Store.view, hMut.entries, item_congr hCont]
      rfl
    rw [hSame]
    exact hMut.applies.view (w.cursor + 1)
  · rw [hMut.journal, hBefore, hMut.cursor, filter_append, filter_append, filter_filter]
    congr 1
    refine filter_congr fun c _ => ?_
    simp only [recent, Bool.and_eq_left_iff_imp, decide_eq_true_eq]
    omega

theorem Runs.logged (h : Runs w w') : ∃ changes, Logged w w' changes := by
  induction h with
  | refl => exact ⟨[], .refl w⟩
  | tail hRun hStep ih =>
    obtain ⟨first, hFirst⟩ := ih
    obtain ⟨rest, hRest, -⟩ := hStep.logged (Runs.sound hSound hRun)
    exact ⟨first ++ rest, hFirst.trans hRest⟩

theorem Runs.passes (h : Runs w w') {cursor : Nat} (hLow : w.cursor ≤ cursor)
    (hHigh : cursor ≤ w'.cursor) : ∃ v, Runs w v ∧ Runs v w' ∧ v.cursor = cursor := by
  induction h with
  | refl => exact ⟨w, .refl, .refl, by omega⟩
  | @tail b c hRun hStep ih =>
    by_cases hBefore : cursor ≤ b.cursor
    · obtain ⟨v, hFirst, hRest, hCursor⟩ := ih hBefore
      exact ⟨v, hFirst, hRest.tail hStep, hCursor⟩
    obtain ⟨changes, hLogged, hOne⟩ := hStep.logged (Runs.sound hSound hRun)
    have hCursor := hLogged.cursor
    exact ⟨c, hRun.tail hStep, .refl, by omega⟩

end Runs

/-! ## Reading -/

section Reading

variable {w : Store} {history : List Change} {limit : Nat}

structure Retains (w : Store) (history : List Change) : Prop where
  numbered : Numbered Change.cursor 1 history
  length : history.length = w.cursor
  journal : w.journal = history.filter (recent w.cursor)

section

variable (h : Retains w history)
include h

theorem Retains.journal_eq : w.journal = history.rtake journalRetention := by
  have hRecent : history.filter (recent w.cursor) =
      history.filter fun c => w.cursor - journalRetention < c.cursor := by
    refine filter_congr fun c hc => ?_
    have hPositive := (h.numbered.bounds hc).1
    simp only [recent, decide_eq_decide]
    omega
  rw [h.journal, hRecent, h.numbered.filter_lt, List.rtake, h.length, Nat.add_sub_cancel]

theorem Retains.refresh_iff {after : Int} (hAfter : 0 ≤ after) :
    ((w.journal.map Change.cursor).min?.any fun first : Nat => after < (first : Int) - 1) ↔
      after < (w.cursor : Int) - journalRetention := by
  by_cases hEmpty : w.journal = []
  · have hCursor : w.cursor = 0 := by
      have hLen := length_rtake history journalRetention
      rw [← h.journal_eq, hEmpty, h.length, length_nil] at hLen
      unfold journalRetention at hLen
      omega
    simp only [hEmpty, map_nil, min?_nil, Option.any_none, Bool.false_eq_true, false_iff, hCursor]
    omega
  · have hNumbered : Numbered Change.cursor (1 + (w.cursor - journalRetention)) w.journal := by
      rw [h.journal_eq, List.rtake, h.length]
      exact h.numbered.drop _
    rw [hNumbered.min? hEmpty, Option.any_some, decide_eq_true_eq]
    omega

variable (hLimit : 1 ≤ limit ∧ limit ≤ journalReadMaximum)
include hLimit

theorem Retains.listJournal
    {after : Nat} (hLow : w.cursor ≤ after + journalRetention) (hHigh : after ≤ w.cursor) :
    w.listJournal after limit = .ok ⟨w.cursor, (history.drop after).take limit, false,
      limit < (history.drop after).length⟩ := by
  have hOptions : ¬((after : Int) < 0 ∨ limit < 1 ∨ journalReadMaximum < limit) := by omega
  have hCur : ¬(w.cursor : Int) < after := by omega
  have hFresh : ¬((w.journal.map Change.cursor).min?.any fun first : Nat => (after : Int) < (first : Int) - 1) := by
    rw [h.refresh_iff (by omega)]
    omega
  have hRows : (w.journal.filter fun c => (after : Int) < c.cursor ∧ c.cursor ≤ w.cursor) = history.drop after := by
    rw [h.journal, filter_filter]
    refine Eq.trans (filter_congr fun c hc => ?_) (h.numbered.filter_lt after)
    have hBounds := h.numbered.bounds hc
    rw [h.length] at hBounds
    simp only [recent, ← Bool.decide_and, decide_eq_decide]
    omega
  have hSorted : (history.drop after).mergeSort (fun a b => a.cursor ≤ b.cursor) = history.drop after := by
    refine mergeSort_of_pairwise ?_
    exact (h.numbered.drop after).pairwise.imp fun hLess => decide_eq_true hLess
  rw [Store.listJournal, if_neg hOptions, if_neg hCur, if_neg hFresh, hRows, hSorted]

theorem Retains.reads {after : Nat}
    (hLow : w.cursor ≤ after + journalRetention) (hHigh : after ≤ w.cursor) :
    Reads w limit after (history.drop after) := by
  -- every page but the last takes `limit` lines
  induction hLeft : w.cursor - after using Nat.strongRecOn generalizing after with
  | ind n ih =>
    have hPage := h.listJournal hLimit hLow hHigh
    have hLen : (history.drop after).length = w.cursor - after := by rw [length_drop, h.length]
    by_cases hMore : limit < (history.drop after).length
    · have hRest := ih (w.cursor - (after + limit)) (by omega) (by omega) (by omega) rfl
      have hSplit : (history.drop after).take limit ++ history.drop (after + limit) = history.drop after := by
        rw [← drop_drop, take_append_drop]
      have hTaken : ((history.drop after).take limit).length = limit := by
        rw [length_take]
        omega
      have hSome : (history.drop after).take limit ≠ [] := by
        intro hNone
        rw [hNone, length_nil] at hTaken
        omega
      obtain ⟨c, hLast, hCursor⟩ := ((h.numbered.drop after).take limit).getLast? hSome
      rw [show after + limit = c.cursor by omega] at hRest hSplit
      rw [← hSplit]
      exact .more hPage rfl (decide_eq_true hMore) hLast hRest
    · have hAll : (history.drop after).take limit = history.drop after := take_of_length_le (by omega)
      rw [← hAll]
      exact .last hPage rfl (decide_eq_false hMore)

end

theorem Reads.unique {after : Int} {first second : List Change} (hFirst : Reads w limit after first)
    (hSecond : Reads w limit after second) : second = first := by
  induction hFirst generalizing second with
  | last hPage hFresh hMore =>
    cases hSecond with
    | last hOther => rw [Except.ok.inj (hOther.symm.trans hPage)]
    | more hOther _ hOtherMore =>
      cases Except.ok.inj (hOther.symm.trans hPage)
      cases hMore.symm.trans hOtherMore
  | more hPage hFresh hMore hLast hRest ih =>
    cases hSecond with
    | last hOther _ hOtherMore =>
      cases Except.ok.inj (hOther.symm.trans hPage)
      cases hMore.symm.trans hOtherMore
    | more hOther _ _ hOtherLast hOtherRest =>
      cases Except.ok.inj (hOther.symm.trans hPage)
      cases hLast.symm.trans hOtherLast
      rw [ih hOtherRest]

end Reading

/-- For a client that saw the tree at some cursor of the run: the journal asks for a refresh exactly when
the cursor is beyond the current one or more than the retention behind, and otherwise its pages give
the lines in between, in order, which turn the tree that the client saw into the current one. -/
theorem journal_reproduces_workspace {capacity : Capacity} {taken : Text → Bool} {now : Instant}
    {starter : List Starter} {start w : Store}
    (hStart : insertFromStarter capacity taken now starter = .ok start)
    (hRun : Runs start w) {limit : Nat} (hLimit : 1 ≤ limit ∧ limit ≤ journalReadMaximum) :
    (∀ after : Int, 0 ≤ after → ∃ page, w.listJournal after limit = .ok page ∧
      (page.refreshRequired = true ↔ (w.cursor : Int) < after ∨ after < (w.cursor : Int) - journalRetention)) ∧
    (∀ cursor ≤ w.cursor, ∃ v, Runs start v ∧ Runs v w ∧ v.cursor = cursor) ∧
    ∀ v, Runs start v → Runs v w → w.cursor ≤ v.cursor + journalRetention →
      ∃ changes, Reads w limit v.cursor changes ∧ (∀ other, Reads w limit v.cursor other → other = changes) ∧
        changes.map Change.cursor = List.range' (v.cursor + 1) (w.cursor - v.cursor) ∧
        changes.foldl applyChange v.view = w.view := by
  have hAdmitted := insertFromStarter_admitted hStart
  have hSound := hAdmitted.sound
  have hRetains : ∀ {v : Store} {history : List Change}, Logged start v history → Retains v history := by
    intro v history hLogged
    have hCursor := hLogged.cursor
    have hNumbered := hLogged.numbered
    rw [hAdmitted.cursor] at hCursor hNumbered
    exact ⟨hNumbered, by omega, hLogged.journal [] hAdmitted.journal⟩
  refine ⟨fun after hAfter => ?_, fun cursor hCursor => ?_, fun v hBefore hAfter hNear => ?_⟩
  · obtain ⟨history, hLogged⟩ := Runs.logged hSound hRun
    have hFresh := (hRetains hLogged).refresh_iff hAfter
    have hOptions : ¬(after < 0 ∨ limit < 1 ∨ journalReadMaximum < limit) := by omega
    rw [Store.listJournal, if_neg hOptions]
    by_cases hBeyond : (w.cursor : Int) < after
    · rw [if_pos hBeyond]
      exact ⟨_, rfl, ⟨fun _ => .inl hBeyond, fun _ => rfl⟩⟩
    rw [if_neg hBeyond]
    by_cases hOld : after < (w.cursor : Int) - journalRetention
    · rw [if_pos (hFresh.mpr hOld)]
      exact ⟨_, rfl, ⟨fun _ => .inr hOld, fun _ => rfl⟩⟩
    rw [if_neg fun hTrue => hOld (hFresh.mp hTrue)]
    refine ⟨_, rfl, ⟨nofun, fun hEither => ?_⟩⟩
    rcases hEither with h | h
    · exact absurd h hBeyond
    · exact absurd h hOld
  · exact Runs.passes hSound hRun (by rw [hAdmitted.cursor]; exact Nat.zero_le _) hCursor
  · obtain ⟨first, hFirst⟩ := Runs.logged hSound hBefore
    obtain ⟨changes, hChanges⟩ := Runs.logged (Runs.sound hSound hBefore) hAfter
    have hCursor := hChanges.cursor
    have hLen := (hRetains hFirst).length
    have hReads := (hRetains (hFirst.trans hChanges)).reads hLimit hNear (by omega)
    rw [drop_left' hLen] at hReads
    refine ⟨changes, hReads, fun other hOther => hReads.unique hOther, ?_, hChanges.view.symm⟩
    rw [hChanges.numbered, hCursor, Nat.add_sub_cancel_left]

theorem journal_reproduces_workspace_file : ∃ changes, Reads sampleNext 200 0 changes ∧
    changes.foldl applyChange sampleStart.view = sampleNext.view := by
  obtain ⟨-, -, hRead⟩ := journal_reproduces_workspace insertFromStarter_sample runs_sample ⟨by decide, le_refl 200⟩
  obtain ⟨changes, hReads, -, -, hView⟩ := hRead sampleStart .refl runs_sample (by decide)
  exact ⟨changes, hReads, hView⟩

end Proctor.Workspace
