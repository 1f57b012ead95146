import Proctor.Workspace.Effects

/-! # No live content is collected

An object of the Attempt is current exactly as long as one entry selects it. Staging publishes it
together with that entry, replacement and deletion retire it together with the entry's change, and
cleanup takes only objects that nothing refers to; so the invariant survives every interleaving. -/
namespace Proctor.Workspace

open Fallible Keyed List Table
open Option (map_some)

/-- A file selects a current object with its content, a directory none. -/
def Backed (w : Store) (e : Entry) : Prop :=
  match e.kind with
  | .file => ∃ id o content,
    e.objectID = some id ∧ w.objects.find id = some o ∧ o.state = .current ∧ o.content = some content
  | .directory => e.objectID = none

structure Sound (w : Store) : Prop where
  backed : ∀ e ∈ w.entries.rows, Backed w e
  selected : ∀ id o, w.objects.find id = some o → o.origin = .attempt → o.state = .current →
    ∃ e ∈ w.entries.rows, e.objectID = some id
  single : ∀ e ∈ w.entries.rows, ∀ d ∈ w.entries.rows, ∀ id o, e.objectID = some id → d.objectID = some id →
    w.objects.find id = some o → o.origin = .attempt → e = d
  starter : ∀ id o, w.objects.find id = some o → o.origin = .starter → o.state = .current

section Invariant

variable {w w' : Store} {env : Environment} {m : Mutation} {effect : Effect} {e : Entry} {id : Text}
  {o : Object} {retiredBy : Option Text}

theorem Sound.directories (hSound : Sound w) : ∀ e ∈ w.entries.rows, e.kind = .directory → e.objectID = none := by
  intro e he hKind
  have hBacked := hSound.backed e he
  rwa [Backed, hKind] at hBacked

theorem Sound.current (hSound : Sound w) (he : e ∈ w.entries.rows) (hSelect : e.objectID = some id) :
    ∃ o content, w.objects.find id = some o ∧ o.state = .current ∧ o.content = some content := by
  have hBacked := hSound.backed e he
  unfold Backed at hBacked
  split at hBacked
  · obtain ⟨other, o, content, hOther, hRest⟩ := hBacked
    cases hOther.symm.trans hSelect
    exact ⟨o, content, hRest⟩
  · cases hBacked.symm.trans hSelect

/-- The entries that stay select the objects that they selected; a new entry selects one that no entry did. -/
theorem Sound.carried (new : Option Entry) (hSound : Sound w)
    (hRows : ∀ x ∈ w'.entries.rows, new = some x ∨ x ∈ w.entries.rows ∧
      ∀ id, x.objectID = some id → w'.objects.find id = w.objects.find id)
    (hNew : ∀ x, new = some x → Backed w' x ∧
      ∀ id, x.objectID = some id → ∀ e ∈ w.entries.rows, e.objectID ≠ some id)
    (hSelected : ∀ id o, w'.objects.find id = some o → o.origin = .attempt → o.state = .current →
      ∃ e ∈ w'.entries.rows, e.objectID = some id)
    (hStarter : ∀ id o, w'.objects.find id = some o → o.origin = .starter → o.state = .current) : Sound w' where
  backed x hx := by
    rcases hRows x hx with hX | ⟨hX, hSame⟩
    · exact (hNew x hX).1
    have hBacked := hSound.backed x hX
    unfold Backed at hBacked ⊢
    split at hBacked
    · obtain ⟨id, o, content, hSelect, hRest⟩ := hBacked
      exact ⟨id, o, content, hSelect, hSame id hSelect ▸ hRest⟩
    · exact hBacked
  selected := hSelected
  single x hx d hd id o hSelect hOther hFind hOrig := by
    rcases hRows x hx with hX | ⟨hX, hSame⟩ <;> rcases hRows d hd with hD | ⟨hD, -⟩
    · exact Option.some.inj (hX.symm.trans hD)
    · exact absurd hOther ((hNew x hX).2 id hSelect d hD)
    · exact absurd hSelect ((hNew d hD).2 id hOther x hX)
    · exact hSound.single x hX d hD id o hSelect hOther (hSame id hSelect ▸ hFind) hOrig
  starter := hStarter

theorem Housekeeps.find_selected (hSound : Sound w) (h : Housekeeps w w')
    (he : e ∈ w.entries.rows) (hSelect : e.objectID = some id) :
    w'.objects.find id = w.objects.find id := by
  obtain ⟨o, content, hFind, hCur, -⟩ := hSound.current he hSelect
  have hUpkeep := h.objects id
  rw [hFind] at hUpkeep ⊢
  generalize w'.objects.find id = after at hUpkeep
  cases hUpkeep with
  | same => rfl
  | aged hOrig hSame hBefore => exact absurd hCur hBefore
  | deleted hOrig hRet hFree => exact absurd hSelect (hFree e he)

theorem Housekeeps.sound (hSound : Sound w) (h : Housekeeps w w') : Sound w' := by
  refine hSound.carried none (fun x hx => .inr ?_) nofun (fun id o hFind hOrig hCur => ?_)
    fun id o hFind hOrig => ?_
  · rw [h.entries] at hx
    exact ⟨hx, fun id => h.find_selected hSound hx⟩
  · rw [h.entries]
    have hUpkeep := h.objects id
    rw [hFind] at hUpkeep
    generalize hBefore : w.objects.find id = before at hUpkeep
    cases hUpkeep with
    | same => exact hSound.selected id o hBefore hOrig hCur
    | reserved _ hStaged =>
      obtain ⟨expiresAt, hStaged⟩ := hStaged
      cases hStaged.symm.trans hCur
    | aged _ _ _ hAfter => exact absurd hCur hAfter
  · have hUpkeep := h.objects id
    rw [hFind] at hUpkeep
    generalize hBefore : w.objects.find id = before at hUpkeep
    cases hUpkeep with
    | same => exact hSound.starter id o hBefore hOrig
    | reserved hAtt => cases hOrig.symm.trans hAtt
    | aged hAtt hSame => cases hOrig.symm.trans (hSame.trans hAtt)

/-! ## Mutations -/

variable {content : Content}

theorem Store.Ready.find_set (hReady : w.Ready id o content)
    (now : Instant) (other : Text) : (w.objects.set (o.markCurrent now)).find other =
      if other = id then some (o.markCurrent now) else w.objects.find other := by
  obtain ⟨-, rfl⟩ := find_eq_some_iff.mp hReady.found
  rw [find_set]
  change (if other = o.id then _ else _) = _
  split
  · next hSame => rw [hSame, hReady.found, map_some]
  · rfl

theorem Store.Ready.not_selected (hReady : w.Ready id o content)
    (hSound : Sound w) (he : e ∈ w.entries.rows) : e.objectID ≠ some id := by
  intro hSelect
  obtain ⟨x, _, hFind, hCur, -⟩ := hSound.current he hSelect
  obtain ⟨expiresAt, hStaged⟩ := hReady.staged
  cases hReady.found.symm.trans hFind
  cases hStaged.symm.trans hCur

variable {entries : Table Entry.id}

theorem createFile_sound (hSound : Sound w) (hReady : w.Ready m.objectID o content)
    (hIns : w.entries.insert ⟨m.entryID, .file, m.destinationPath, some m.objectID⟩ = some entries) :
    Sound { w with entries := entries, objects := w.objects.set (o.markCurrent env.now) } := by
  have hRows := fun x => mem_insert (x := x) hIns
  refine hSound.carried (some ⟨m.entryID, .file, m.destinationPath, some m.objectID⟩) (fun x hx => ?_) ?_
    (fun id x hFind hOrig hCur => ?_) fun id x hFind hOrig => ?_
  · refine ((hRows x).mp hx).symm.imp (congrArg some ·.symm) fun hx => ⟨hx, fun id hSelect => ?_⟩
    rw [hReady.find_set, if_neg]
    rintro rfl
    exact hReady.not_selected hSound hx hSelect
  · rintro _ ⟨⟩
    refine ⟨⟨m.objectID, o.markCurrent env.now, content, rfl, by rw [hReady.find_set, if_pos rfl], rfl,
      hReady.content⟩, ?_⟩
    rintro _ ⟨⟩ e he
    exact hReady.not_selected hSound he
  · rw [hReady.find_set] at hFind
    split at hFind
    · next hSame => exact ⟨_, (hRows _).mpr (.inr rfl), by rw [hSame]⟩
    · obtain ⟨e, he, hSelect⟩ := hSound.selected id x hFind hOrig hCur
      exact ⟨e, (hRows e).mpr (.inl he), hSelect⟩
  · rw [hReady.find_set] at hFind
    split at hFind
    · cases hFind
      cases hReady.origin.symm.trans hOrig
    · exact hSound.starter id x hFind hOrig

theorem createDirectory_sound (hSound : Sound w)
    (hIns : w.entries.insert ⟨m.entryID, .directory, m.destinationPath, none⟩ = some entries) :
    Sound { w with entries := entries } := by
  have hRows := fun x => mem_insert (x := x) hIns
  refine hSound.carried (some ⟨m.entryID, .directory, m.destinationPath, none⟩) (fun x hx => ?_) ?_
    (fun id x hFind hOrig hCur => ?_) hSound.starter
  · exact ((hRows x).mp hx).symm.imp (congrArg some ·.symm) fun hx => ⟨hx, fun _ _ => rfl⟩
  · rintro _ ⟨⟩
    exact ⟨rfl, nofun⟩
  · obtain ⟨e, he, hSelect⟩ := hSound.selected id x hFind hOrig hCur
    exact ⟨e, (hRows e).mpr (.inl he), hSelect⟩

variable {objects : Table Object.id}

theorem find_retired {before : Option Object} {P : Prop} [Decidable P] {now : Instant} {x : Object}
    (hObjs : objects.find id = before.map fun o =>
      if o.origin = .attempt ∧ o.state = .current ∧ P then o.retire now retiredBy else o)
    (hFind : objects.find id = some x) : ∃ o, before = some o ∧
      (x = o.retire now retiredBy ∧ o.origin = .attempt ∧ o.state = .current ∧ P ∨
        x = o ∧ ¬(o.origin = .attempt ∧ o.state = .current ∧ P)) := by
  rw [hObjs] at hFind
  obtain ⟨o, hBefore, hx⟩ := Option.map_eq_some_iff.mp hFind
  refine ⟨o, hBefore, ?_⟩
  split at hx
  · next hRet => exact .inl ⟨hx.symm, hRet⟩
  · next hNot => exact .inr ⟨hx.symm, hNot⟩

theorem replaceFile_sound
    (hSound : Sound w) (hEntry : w.entries.find m.entryID = some e) (hKind : e.kind = .file)
    (hReady : w.Ready m.objectID o content)
    (hObjs : ∀ id, objects.find id = ((w.objects.set (o.markCurrent env.now)).find id).map fun x =>
      if x.origin = .attempt ∧ x.state = .current ∧ e.objectID = some id then x.retire env.now none else x) :
    Sound { w with entries := w.entries.set { e with objectID := some m.objectID }, objects := objects } := by
  obtain ⟨hMem, hID⟩ := find_eq_some_iff.mp hEntry
  rw [← hID] at hEntry
  have hRows : ∀ x, x ∈ (w.entries.set { e with objectID := some m.objectID }).rows ↔
      x = { e with objectID := some m.objectID } ∨ x ∈ w.entries.rows ∧ x.id ≠ e.id :=
    fun x => mem_set hEntry
  refine hSound.carried (some { e with objectID := some m.objectID }) (fun x hx => ?_) ?_
    (fun id y hFind hOrig hCur => ?_) fun id y hFind hOrig => ?_
  · refine ((hRows x).mp hx).imp (congrArg some ·.symm) fun ⟨hx, hNe⟩ => ⟨hx, fun id hSelect => ?_⟩
    have hOther : id ≠ m.objectID := by
      rintro rfl
      exact hReady.not_selected hSound hx hSelect
    rw [hObjs, hReady.find_set, if_neg hOther]
    cases hFind : w.objects.find id with
    | none => rfl
    | some y =>
      rw [map_some, if_neg]
      rintro ⟨hOrig, -, hBoth⟩
      exact hNe (congrArg Entry.id (hSound.single x hx e hMem id y hSelect hBoth hFind hOrig))
  · rintro _ ⟨⟩
    have hNew : objects.find m.objectID = some (o.markCurrent env.now) := by
      rw [hObjs, hReady.find_set, if_pos rfl, map_some, if_neg]
      exact fun hAll => hReady.not_selected hSound hMem hAll.2.2
    refine ⟨?_, ?_⟩
    · rw [Backed, hKind]
      exact ⟨m.objectID, o.markCurrent env.now, content, rfl, hNew, rfl, hReady.content⟩
    · rintro _ ⟨⟩ d hd
      exact hReady.not_selected hSound hd
  · by_cases hSame : id = m.objectID
    · exact ⟨_, (hRows _).mpr (.inl rfl), by rw [hSame]⟩
    obtain ⟨z, hBefore, ⟨rfl, -⟩ | ⟨rfl, hNot⟩⟩ := find_retired (hObjs id) hFind
    · cases hCur
    rw [hReady.find_set, if_neg hSame] at hBefore
    obtain ⟨d, hd, hSelect⟩ := hSound.selected id y hBefore hOrig hCur
    refine ⟨d, (hRows d).mpr (.inr ⟨hd, fun hID => hNot ⟨hOrig, hCur, ?_⟩⟩), hSelect⟩
    rw [← inj_on_of_nodup_map w.entries.distinct hd hMem hID]
    exact hSelect
  · obtain ⟨z, hBefore, ⟨rfl, hAtt, -⟩ | ⟨rfl, -⟩⟩ := find_retired (hObjs id) hFind
    · cases hAtt.symm.trans hOrig
    rw [hReady.find_set] at hBefore
    split at hBefore
    · cases hBefore
      cases hReady.origin.symm.trans hOrig
    · exact hSound.starter id y hBefore hOrig

theorem Entry.renamed_select (root destination : Text) (e : Entry) :
    (e.renamed root destination).id = e.id ∧ (e.renamed root destination).kind = e.kind ∧
      (e.renamed root destination).objectID = e.objectID := by
  unfold Entry.renamed
  split <;> exact ⟨rfl, rfl, rfl⟩

variable (hSound : Sound w)
include hSound

theorem moveEntry_sound {root destination : Text}
    (hRows : entries.rows = w.entries.rows.map (Entry.renamed root destination)) :
    Sound { w with entries := entries } := by
  have hMem : ∀ x, x ∈ entries.rows ↔ ∃ e ∈ w.entries.rows, e.renamed root destination = x := by
    intro x
    rw [hRows, mem_map]
  refine ⟨fun x hx => ?_, fun id y hFind hOrig hCur => ?_,
    fun x hx d hd id y hSelect hOther hFind hOrig => ?_, hSound.starter⟩
  · obtain ⟨e, he, rfl⟩ := (hMem x).mp hx
    obtain ⟨-, hKind, hObj⟩ := e.renamed_select root destination
    rw [Backed, hKind, hObj]
    exact hSound.backed e he
  · obtain ⟨e, he, hSelect⟩ := hSound.selected id y hFind hOrig hCur
    exact ⟨_, (hMem _).mpr ⟨e, he, rfl⟩, (e.renamed_select root destination).2.2.trans hSelect⟩
  · obtain ⟨a, ha, rfl⟩ := (hMem x).mp hx
    obtain ⟨b, hb, rfl⟩ := (hMem d).mp hd
    rw [(a.renamed_select root destination).2.2] at hSelect
    rw [(b.renamed_select root destination).2.2] at hOther
    rw [hSound.single a ha b hb id y hSelect hOther hFind hOrig]

theorem deleteEntry_sound {keeps : Entry → Bool}
    (hObjs : ∀ id, objects.find id = (w.objects.find id).map fun x =>
      if x.origin = .attempt ∧ x.state = .current ∧
          w.entries.rows.any (fun d => d.objectID = some id && !keeps d) then
        x.retire env.now retiredBy
      else x) :
    Sound { w with entries := w.entries.keep keeps, objects := objects } := by
  have hRows : ∀ x, x ∈ (w.entries.keep keeps).rows ↔ x ∈ w.entries.rows ∧ keeps x :=
    fun x => mem_filter
  have hLeft : ∀ id, w.entries.rows.any (fun d => d.objectID = some id && !keeps d) ↔
      ∃ d ∈ w.entries.rows, d.objectID = some id ∧ keeps d = false := by
    intro id
    rw [any_eq_true]
    simp only [Bool.and_eq_true, decide_eq_true_eq, Bool.not_eq_true']
  refine hSound.carried none (fun x hx => .inr ?_) nofun (fun id y hFind hOrig hCur => ?_)
    fun id y hFind hOrig => ?_
  · obtain ⟨hx, hKeeps⟩ := (hRows x).mp hx
    refine ⟨hx, fun id hSelect => ?_⟩
    rw [hObjs]
    cases hFind : w.objects.find id with
    | none => rfl
    | some y =>
      rw [map_some, if_neg]
      rintro ⟨hOrig, -, hAny⟩
      obtain ⟨d, hd, hBoth, hGone⟩ := (hLeft id).mp hAny
      rw [← hSound.single x hx d hd id y hSelect hBoth hFind hOrig, hKeeps] at hGone
      cases hGone
  · obtain ⟨z, hBefore, ⟨rfl, -⟩ | ⟨rfl, hNot⟩⟩ := find_retired (hObjs id) hFind
    · cases hCur
    obtain ⟨d, hd, hSelect⟩ := hSound.selected id y hBefore hOrig hCur
    refine ⟨d, (hRows d).mpr ⟨hd, ?_⟩, hSelect⟩
    by_contra hGone
    exact hNot ⟨hOrig, hCur, (hLeft id).mpr ⟨d, hd, hSelect, Bool.eq_false_iff.mpr hGone⟩⟩
  · obtain ⟨z, hBefore, ⟨rfl, hAtt, -⟩ | ⟨rfl, -⟩⟩ := find_retired (hObjs id) hFind
    · cases hAtt.symm.trans hOrig
    · exact hSound.starter id y hBefore hOrig

theorem Applies.sound (h : Applies env m w w' effect) : Sound w' := by
  cases h with
  | createFile _ _ _ _ hReady _ _ hIns => exact createFile_sound hSound hReady hIns
  | createDirectory _ _ _ _ _ hIns => exact createDirectory_sound hSound hIns
  | replaceFile _ hEntry hKind _ hReady _ hObjs => exact replaceFile_sound hSound hEntry hKind hReady hObjs
  | moveEntry _ _ _ hRows => exact moveEntry_sound hSound hRows
  | deleteEntry _ _ _ _ hObjs => exact deleteEntry_sound hSound hObjs

theorem Sound.congr (hEnts : w'.entries = w.entries) (hObjs : w'.objects = w.objects) :
    Sound w' := by
  exact hSound.carried none (fun x hx => .inr ⟨hEnts ▸ hx, fun id _ => by rw [hObjs]⟩) nofun
    (hEnts ▸ hObjs ▸ hSound.selected) (hObjs ▸ hSound.starter)

theorem Steps.sound (h : Steps w w') : Sound w' := by
  rcases h.cases hSound.starter hSound.directories with hHouse | ⟨env, m, effect, mid, hMut⟩
  · exact hHouse.sound hSound
  · exact (hMut.applies.sound hSound).congr hMut.entries hMut.objects

theorem Runs.sound (h : Runs w w') : Sound w' := by
  induction h with
  | refl => exact hSound
  | tail _ hStep ih => exact hStep.sound ih

end Invariant

/-! ## Admission -/

structure Admitted (w : Store) : Prop where
  cursor : w.cursor = 0
  journal : w.journal = []
  starters : ∀ id o, w.objects.find id = some o → o.origin = .starter ∧ o.state = .current ∧
    ∃ content, o.content = some content
  files : ∀ e ∈ w.entries.rows, e.kind = .file → ∃ id o, e.objectID = some id ∧ w.objects.find id = some o
  directories : ∀ e ∈ w.entries.rows, e.kind = .directory → e.objectID = none

section Admission

variable {w w' : Store}

theorem Admitted.sound (h : Admitted w) : Sound w where
  backed e he := by
    unfold Backed
    split
    · next hKind =>
      obtain ⟨id, o, hSelect, hFind⟩ := h.files e he hKind
      obtain ⟨-, hCur, content, hCont⟩ := h.starters id o hFind
      exact ⟨id, o, content, hSelect, hFind, hCur, hCont⟩
    · next hKind => exact h.directories e he hKind
  selected id o hFind hOrig := by
    cases (h.starters id o hFind).1.symm.trans hOrig
  single e he d hd id o hSelect hOther hFind hOrig := by
    cases (h.starters id o hFind).1.symm.trans hOrig
  starter id o hFind _ := (h.starters id o hFind).2.1

theorem insertStarter_admitted {taken : Text → Bool} {now : Instant} {s : Starter} (hBefore : Admitted w)
    (h : insertStarter taken now w s = .ok w') : Admitted w' := by
  unfold insertStarter at h
  split at h
  · obtain ⟨entries, hIns, -, rfl⟩ := insertEntry_ok h
    obtain ⟨-, hRows⟩ := insert_eq_some hIns
    refine ⟨hBefore.cursor, hBefore.journal, hBefore.starters, ?_, ?_⟩
    · rw [hRows, forall_mem_append]
      exact ⟨hBefore.files, by simp⟩
    · rw [hRows, forall_mem_append, forall_mem_singleton]
      exact ⟨hBefore.directories, fun _ => rfl⟩
  · next content _ =>
    replace h := past_guard h
    split at h
    · cases h
    next objects hObjs =>
    obtain ⟨entries, hIns, -, rfl⟩ := insertEntry_ok h
    obtain ⟨-, hRows⟩ := insert_eq_some hIns
    have hFind := find_insert hObjs
    refine ⟨hBefore.cursor, hBefore.journal, fun id o hFound => ?_, ?_, ?_⟩
    · rw [hFind] at hFound
      split at hFound
      · cases hFound
        exact ⟨rfl, rfl, content, rfl⟩
      · exact hBefore.starters id o hFound
    · rw [hRows, forall_mem_append, forall_mem_singleton]
      refine ⟨fun e he hKind => ?_, fun _ => ⟨s.objectID, _, rfl, by rw [hFind, if_pos rfl]⟩⟩
      obtain ⟨id, o, hSelect, hOld⟩ := hBefore.files e he hKind
      have hOther : id ≠ s.objectID := by
        rintro rfl
        rw [(insert_eq_some hObjs).1] at hOld
        cases hOld
      exact ⟨id, o, hSelect, by rw [hFind, if_neg hOther, hOld]⟩
    · rw [hRows, forall_mem_append]
      exact ⟨hBefore.directories, by simp⟩

theorem insertFromStarter_admitted {capacity : Capacity} {taken : Text → Bool} {now : Instant}
    {starter : List Starter}
    (h : insertFromStarter capacity taken now starter = .ok w) : Admitted w := by
  have hEmpty : Admitted ⟨capacity, .empty, .empty, 0, [], [], []⟩ :=
    ⟨rfl, rfl, nofun, fun e he => absurd he not_mem_nil, fun e he => absurd he not_mem_nil⟩
  have hLoop : Admitted ⟨capacity, .empty, .empty, 0, [], [], []⟩ → Admitted w :=
    foldlM_rel (R := fun a b => Admitted a → Admitted b) (I := fun _ => True) (fun _ h => h)
      (fun _ _ _ hFirst hNext h => hNext (hFirst h)) (fun _ _ _ h => h)
      (fun _ _ _ _ hStep hBefore => insertStarter_admitted hBefore hStep) trivial h
  exact hLoop hEmpty

end Admission

/-! ## Retired objects -/

section Retired

variable {w w' : Store} {env : Environment} {m : Mutation} {effect : Effect} {id : Text} {o : Object}

theorem Applies.find_retired (h : Applies env m w w' effect) (hFind : w.objects.find id = some o)
    (hRet : o.isRetired) : w'.objects.find id = some o := by
  have hState : o.state ≠ .current := by
    intro hCur
    rw [Object.isRetired, hCur] at hRet
    cases hRet
  have hOther : ∀ {other : Text} {x : Object} {content : Content}, w.Ready other x content → id ≠ other := by
    rintro other x content hReady rfl
    obtain ⟨expiresAt, hStaged⟩ := hReady.staged
    cases hReady.found.symm.trans hFind
    rw [Object.isRetired, hStaged] at hRet
    cases hRet
  cases h with
  | createFile _ _ _ _ hReady =>
    rw [hReady.find_set, if_neg (hOther hReady), hFind]
  | createDirectory => exact hFind
  | replaceFile _ _ _ _ hReady _ hObjs =>
    rw [hObjs, hReady.find_set, if_neg (hOther hReady), hFind, map_some, if_neg]
    exact fun hAll => hState hAll.2.1
  | moveEntry => exact hFind
  | deleteEntry _ _ _ _ hObjs =>
    rw [hObjs, hFind, map_some, if_neg]
    exact fun hAll => hState hAll.2.1

variable (hSound : Sound w)
include hSound

theorem Steps.retired (h : Steps w w') (hFind : w.objects.find id = some o)
    (hRet : o.isRetired) :
    w'.objects.find id = none ∨ ∃ next, w'.objects.find id = some next ∧ next.isRetired := by
  rcases h.cases hSound.starter hSound.directories with hHouse | ⟨env, m, effect, mid, hMut⟩
  · have hUpkeep := hHouse.objects id
    rw [hFind] at hUpkeep
    generalize w'.objects.find id = after at hUpkeep
    cases hUpkeep with
    | same => exact .inr ⟨o, rfl, hRet⟩
    | aged _ _ _ _ _ hStays => exact .inr ⟨_, rfl, hStays hRet⟩
    | deleted => exact .inl rfl
  · rw [hMut.objects]
    exact .inr ⟨o, hMut.applies.find_retired hFind hRet, hRet⟩

theorem Runs.retired (h : Runs w w') (hFind : w.objects.find id = some o)
    (hRet : o.isRetired) : (∃ v, Runs w v ∧ Runs v w' ∧ v.objects.find id = none) ∨
      ∃ next, w'.objects.find id = some next ∧ next.isRetired := by
  induction h with
  | refl => exact .inr ⟨o, hFind, hRet⟩
  | tail hRun hStep ih =>
    rcases ih with ⟨v, hBefore, hAfter, hGone⟩ | ⟨x, hFind, hRet⟩
    · exact .inl ⟨v, hBefore, hAfter.tail hStep, hGone⟩
    rcases hStep.retired (Runs.sound hSound hRun) hFind hRet with hGone | hStays
    · exact .inl ⟨_, hRun.tail hStep, .refl, hGone⟩
    · exact .inr hStays

theorem Sound.not_selected (hFind : w.objects.find id = some o)
    (hRet : o.isRetired) : ∀ e ∈ w.entries.rows, e.objectID ≠ some id := by
  intro e he hSelect
  obtain ⟨x, _, hSame, hCur, -⟩ := hSound.current he hSelect
  cases hFind.symm.trans hSame
  rw [Object.isRetired, hCur] at hRet
  cases hRet

end Retired

/-! ## Live content -/

def Store.selectors (w : Store) (id : Text) : List Entry := w.entries.rows.filter fun e => e.objectID = some id

theorem Sound.current_iff {w : Store} (hSound : Sound w) {o : Object} (ho : o ∈ w.objects.rows)
    (hOrig : o.origin = .attempt) : o.state = .current ↔ (w.selectors o.id).length = 1 := by
  have hFind : w.objects.find o.id = some o := find_eq_some_iff.mpr ⟨ho, rfl⟩
  have hMem : ∀ e, e ∈ w.selectors o.id ↔ e ∈ w.entries.rows ∧ e.objectID = some o.id := by
    intro e
    rw [Store.selectors, mem_filter, decide_eq_true_eq]
  constructor
  · intro hCur
    obtain ⟨e, he, hSelect⟩ := hSound.selected o.id o hFind hOrig hCur
    have hOnly : ∀ d ∈ w.selectors o.id, d = e := fun d hd =>
      hSound.single d ((hMem d).mp hd).1 e he o.id o ((hMem d).mp hd).2 hSelect hFind hOrig
    have hNodup : (w.selectors o.id).Nodup := (List.Nodup.of_map _ w.entries.distinct).filter _
    have hPerm : (w.selectors o.id).Perm [e] := by
      refine (perm_ext_iff_of_nodup hNodup (nodup_singleton e)).mpr fun d => ?_
      rw [mem_singleton]
      exact ⟨hOnly d, fun hd => hd ▸ (hMem e).mpr ⟨he, hSelect⟩⟩
    exact hPerm.length_eq
  · intro hOne
    obtain ⟨e, hOnly⟩ := length_eq_one_iff.mp hOne
    obtain ⟨he, hSelect⟩ := (hMem e).mp (hOnly ▸ mem_singleton_self e)
    obtain ⟨x, _, hSame, hCur, -⟩ := hSound.current he hSelect
    cases hFind.symm.trans hSame
    exact hCur

/-- The mutation whose recorded outcome still protects a retired object. -/
def Object.retiredBy (o : Object) : Option Text :=
  match o.state with
  | .reclaimable _ retiredBy | .claimed _ _ _ retiredBy => retiredBy
  | .staged _ | .current => none

theorem completeObjectCleanup_unreferenced {w w' : Store} {id token : Text} {o : Object}
    (ho : o ∈ w.objects.rows) (h : w.completeObjectCleanup id token = .ok w') (hGone : o ∉ w'.objects.rows) :
    w.unreferenced o o.retiredBy := by
  cases hFound : w.objects.find id with
  | none =>
    rw [completeObjectCleanup_of_none hFound h] at hGone
    exact absurd ho hGone
  | some x =>
    obtain ⟨-, reclaimAfter, claimedAt, retiredBy, hState, hFree, rfl⟩ := completeObjectCleanup_ok hFound h
    obtain ⟨hx, hID⟩ := find_eq_some_iff.mp hFound
    have hSame : o.id = id := by
      by_contra hOther
      exact hGone (mem_filter.mpr ⟨ho, decide_eq_true hOther⟩)
    obtain rfl := inj_on_of_nodup_map w.objects.distinct ho hx (hSame.trans hID.symm)
    rw [Object.retiredBy, hState]
    exact hFree

/-- Over every interleaving: an object of the Attempt is current exactly when one entry selects it, file
entries select current objects, a retired object is not selected again before its row is removed, only
the token that holds the claim removes it, and nothing that is removed is referred to. -/
theorem live_content_is_kept {capacity : Capacity} {taken : Text → Bool} {now : Instant}
    {starter : List Starter} {start w : Store}
    (hStart : insertFromStarter capacity taken now starter = .ok start) (hRun : Runs start w) :
    (∀ o ∈ w.objects.rows, o.origin = .attempt → (o.state = .current ↔ (w.selectors o.id).length = 1)) ∧
    (∀ e ∈ w.entries.rows, e.kind = .file →
      ∃ o ∈ w.objects.rows, e.objectID = some o.id ∧ o.state = .current) ∧
    (∀ o ∈ w.objects.rows, o.isRetired = true → ∀ w', Runs w w' →
      (∃ v, Runs w v ∧ Runs v w' ∧ v.objects.find o.id = none) ∨
        (∃ next ∈ w'.objects.rows, next.id = o.id ∧ next.isRetired = true) ∧ w'.selectors o.id = []) ∧
    (∀ o ∈ w.objects.rows, ∀ token other v v', w.completeObjectCleanup o.id token = .ok v →
      w.completeObjectCleanup o.id other = .ok v' → token = other) ∧
    ∀ id token v, w.completeObjectCleanup id token = .ok v → ∀ o ∈ w.objects.rows, o ∉ v.objects.rows →
      w.selectors o.id = [] ∧ o.id ∉ w.manifest ∧
        ∀ outcome ∈ w.outcomes, o.id ∉ outcome.protectedIDs ∧ some outcome.auditEventID ≠ o.retiredBy := by
  have hSound := Runs.sound (insertFromStarter_admitted hStart).sound hRun
  have hFound : ∀ o ∈ w.objects.rows, w.objects.find o.id = some o := fun o ho =>
    Table.find_eq_some_iff.mpr ⟨ho, rfl⟩
  have hNone : ∀ {v : Store} {id : Text}, (∀ e ∈ v.entries.rows, e.objectID ≠ some id) → v.selectors id = [] := by
    intro v id hFree
    exact filter_eq_nil_iff.mpr fun e he hSelect => hFree e he (of_decide_eq_true hSelect)
  refine ⟨fun o ho hOrig => hSound.current_iff ho hOrig, fun e he hKind => ?_,
    fun o ho hRet w' hLater => ?_, fun o ho token other v v' hFirst hSecond => ?_,
    fun id token v hComp o ho hGone => ?_⟩
  · have hBacked := hSound.backed e he
    rw [Backed, hKind] at hBacked
    obtain ⟨id, o, _, hSelect, hFind, hCur, -⟩ := hBacked
    obtain ⟨ho, rfl⟩ := Table.find_eq_some_iff.mp hFind
    exact ⟨o, ho, hSelect, hCur⟩
  · rcases Runs.retired hSound hLater (hFound o ho) hRet with hGone | ⟨next, hNext, hStays⟩
    · exact .inl hGone
    · obtain ⟨hMem, hID⟩ := Table.find_eq_some_iff.mp hNext
      exact .inr ⟨⟨next, hMem, hID, hStays⟩, hNone ((Runs.sound hSound hLater).not_selected hNext hStays)⟩
  · obtain ⟨-, _, _, _, hState, -⟩ := completeObjectCleanup_ok (hFound o ho) hFirst
    obtain ⟨-, _, _, _, hOther, -⟩ := completeObjectCleanup_ok (hFound o ho) hSecond
    injection hState.symm.trans hOther
  · obtain ⟨hEnts, hRest⟩ := unreferenced_iff.mp (completeObjectCleanup_unreferenced ho hComp hGone)
    exact ⟨hNone hEnts, hRest⟩

/-! A Workspace admitted with one directory. A file is created in it, gets other content and moves out;
a second file takes its path, and the directory is deleted with it. The content that was replaced is
claimed and deleted once the outcomes that protect it have expired. -/

def sampleID (c : Char) : Text := List.replicate 26 c

def sampleContent (version : Char) : Content := ⟨sampleID version, ['t'], 5, List.replicate 64 '0'⟩

def sampleEnvironment : Environment := ⟨.ok (), 0, fun _ => false, ⟨fun moves => moves, fun _ => .refl _⟩⟩

def sampleStaging (object : Char) : List Operation :=
  [.reserveObject sampleEnvironment (sampleID object),
    .markObjectReady sampleEnvironment (sampleID object) (sampleContent object)]

def sampleEdits : List Mutation :=
  [⟨.createFile, sampleID 'b', [], ['a', '/', 'b'], [], sampleID 'o', false, none, sampleID 'n'⟩,
    ⟨.replaceFile, sampleID 'b', ['a', '/', 'b'], [], sampleID 'o', sampleID 'p', false, none, sampleID 'n'⟩,
    ⟨.moveEntry, sampleID 'b', ['a', '/', 'b'], ['c'], [], [], false, none, sampleID 'n'⟩,
    ⟨.createFile, sampleID 'd', [], ['a', '/', 'b'], [], sampleID 'q', false, none, sampleID 'n'⟩]

def sampleDeletion : Mutation :=
  ⟨.deleteEntry, sampleID 'y', ['a'], [], [], [], true, some 4, sampleID 'n'⟩

def sampleOperations : List Operation :=
  sampleStaging 'o' ++ sampleStaging 'p' ++ sampleStaging 'q' ++
    sampleEdits.map (.applyMutation sampleEnvironment) ++
    [.applyMutation { sampleEnvironment with now := 1 } sampleDeletion, .elsewhere [] [],
      .claimObjectsForCleanup reclaimSafetyWindow 1 ['k'] fun _ => false,
      .completeObjectCleanup (sampleID 'o') ['k']]

def sampleStart : Store :=
  ⟨⟨10, 1000, 1000⟩, ⟨[⟨sampleID 'y', .directory, ['a'], none⟩], by decide⟩, .empty, 0, [], [], []⟩

def sampleNext : Store :=
  ⟨⟨10, 1000, 1000⟩, ⟨[⟨sampleID 'b', .file, ['c'], some (sampleID 'p')⟩], by decide⟩,
    ⟨[⟨sampleID 'p', .attempt, .current, some (sampleContent 'p'), 0⟩,
      ⟨sampleID 'q', .attempt, .reclaimable (1 + reclaimSafetyWindow) (some (sampleID 'n')),
        some (sampleContent 'q'), 1⟩], by decide⟩, 5,
    [⟨1, sampleID 'b', .file, .createFile, [], ['a', '/', 'b'], sampleID 'o', 0, false⟩,
      ⟨2, sampleID 'b', .file, .replaceFile, ['a', '/', 'b'], ['a', '/', 'b'], sampleID 'p', 0, false⟩,
      ⟨3, sampleID 'b', .file, .moveEntry, ['a', '/', 'b'], ['c'], sampleID 'p', 0, false⟩,
      ⟨4, sampleID 'd', .file, .createFile, [], ['a', '/', 'b'], sampleID 'q', 0, false⟩,
      ⟨5, sampleID 'y', .directory, .deleteEntry, ['a'], [], [], 1, true⟩], [], []⟩

theorem insertFromStarter_sample : insertFromStarter ⟨10, 1000, 1000⟩ (fun _ => false) 0
    [⟨sampleID 'y', sampleID 'y', ['a'], none⟩] =
    .ok sampleStart := rfl

theorem runs_sample : Runs sampleStart sampleNext := runs_of_foldlM sampleOperations (by decide +kernel)

theorem live_content_is_kept_file : ∃ o ∈ sampleNext.objects.rows, o.origin = .attempt ∧ o.state = .current ∧
    (sampleNext.selectors o.id).length = 1 := by
  obtain ⟨hCur, -⟩ := live_content_is_kept insertFromStarter_sample runs_sample
  have hMem : ⟨sampleID 'p', .attempt, .current, some (sampleContent 'p'), 0⟩ ∈ sampleNext.objects.rows :=
    mem_cons_self
  exact ⟨_, hMem, rfl, rfl, (hCur _ hMem rfl).mp rfl⟩

end Proctor.Workspace
