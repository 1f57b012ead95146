import Proctor.Delivery.Runs

/-!
# Evidence is accounted once

A verified event whose rule asks for evidence is a copy of its group, or counted
in its group, or counted in the Attempt when its group found no place. Which of
the three is decided when the event is interpreted, and an event is interpreted
once.
-/

namespace Proctor.Delivery

open Ranges Ledger Fallible List FamilyState IntegrityLedger

/-! ## The ledger -/

section Ledger

def IntegrityCopy.event (copy : IntegrityCopy) : QualifyingEvent :=
  ⟨copy.source, copy.sequence, copy.key, some copy.bytes⟩

/-- The ledger accounts for its copies, for the events counted in a group and for the events
counted in the Attempt, and stays within its limits. -/
structure IntegrityLedger.Accounts (l : IntegrityLedger)
    (grouped dropped : List QualifyingEvent) : Prop where
  live : l.retired = false
  distinct : (l.groups.map IntegrityGroup.key).Nodup
  details : ∀ g ∈ l.groups, g.retainedDetails = l.copies.countP fun copy => copy.key = g.key
  overflow : ∀ g ∈ l.groups, g.overflowCount = grouped.countP fun event => event.key = g.key
  copy_group : ∀ copy ∈ l.copies, ∃ g ∈ l.groups, g.key = copy.key
  event_group : ∀ event ∈ grouped, ∃ g ∈ l.groups, g.key = event.key
  dropped_full : dropped ≠ [] → browserFlagGroupLimit ≤ l.groups.length
  dropped_apart : ∀ event ∈ dropped, ∀ g ∈ l.groups, g.key ≠ event.key
  attempt : l.overflowCount = dropped.length
  groups_counted : l.flagGroups = l.groups.length
  records_counted : l.evidenceRecords = l.copies.length
  bytes_counted : l.evidenceBytes = (l.copies.map IntegrityCopy.bytes).sum
  groups_le : l.groups.length ≤ browserFlagGroupLimit
  details_le : ∀ g ∈ l.groups, g.retainedDetails ≤ browserGroupDetailLimit
  records_le : l.copies.length ≤ browserEvidenceRecordLimit
  bytes_le : (l.copies.map IntegrityCopy.bytes).sum ≤ browserEvidenceByteLimit

def IntegrityLedger.accounted (l : IntegrityLedger) (grouped dropped : List QualifyingEvent) :
    List QualifyingEvent :=
  l.copies.map IntegrityCopy.event ++ grouped ++ dropped

theorem IntegrityLedger.empty_accounts : empty.Accounts [] [] := by
  constructor <;> simp [empty]

variable {l l' : IntegrityLedger} {grouped dropped : List QualifyingEvent} {event : QualifyingEvent}
  {key : IntegrityKey} {update : IntegrityGroup → IntegrityGroup}

theorem mem_updateGroup {g : IntegrityGroup} : g ∈ l.updateGroup key update ↔
      ∃ h ∈ l.groups, (h.key = key ∧ g = update h) ∨ (h.key ≠ key ∧ g = h) := by
  simp only [updateGroup, mem_map]
  refine exists_congr fun h => and_congr_right fun _ => ?_
  split <;> simp_all [eq_comm]

theorem updateGroup_keys (hKey : ∀ g, (update g).key = g.key) :
    (l.updateGroup key update).map IntegrityGroup.key = l.groups.map IntegrityGroup.key := by
  simp only [updateGroup, map_map]
  refine map_congr_left fun g _ => ?_
  simp only [Function.comp_apply]
  split
  · exact hKey g
  · rfl

theorem exists_key_congr {groups groups' : List IntegrityGroup}
    (hKeys : groups'.map IntegrityGroup.key = groups.map IntegrityGroup.key) (key : IntegrityKey) :
    (∃ g ∈ groups', g.key = key) ↔ ∃ g ∈ groups, g.key = key := by
  simpa using congrArg (key ∈ ·) hKeys

namespace IntegrityLedger

theorem group_eq_none_iff {key : IntegrityKey} : l.group key = none ↔ ∀ g ∈ l.groups, g.key ≠ key := by
  simp [group]

theorem mem_of_group {key : IntegrityKey} {g : IntegrityGroup} (hGroup : l.group key = some g) :
    g ∈ l.groups ∧ g.key = key :=
  ⟨mem_of_find?_eq_some hGroup, by simpa using find?_some hGroup⟩

namespace Accounts

section

variable (h : l.Accounts grouped dropped)
include h

theorem room_dropped (hRoom : l.flagGroups < browserFlagGroupLimit) : dropped = [] := by
  by_contra hDropped
  have hFull := h.dropped_full hDropped
  rw [h.groups_counted] at hRoom
  omega

theorem openGroup {key : IntegrityKey}
    (hNone : l.group key = none) (hRoom : l.flagGroups < browserFlagGroupLimit) :
    (l.openGroup key).Accounts grouped dropped := by
  have hAbsent := group_eq_none_iff.mp hNone
  have hEmpty := h.room_dropped hRoom
  have hNoCopy : l.copies.countP (fun copy => copy.key = key) = 0 := by
    refine countP_eq_zero.mpr fun copy hCopy => ?_
    obtain ⟨g, hg, hKey⟩ := h.copy_group copy hCopy
    simpa [← hKey] using hAbsent g hg
  have hNoEvent : grouped.countP (fun event => event.key = key) = 0 := by
    refine countP_eq_zero.mpr fun event hEvent => ?_
    obtain ⟨g, hg, hKey⟩ := h.event_group event hEvent
    simpa [← hKey] using hAbsent g hg
  have hWider : ∀ k, (∃ g ∈ l.groups, g.key = k) → ∃ g ∈ (l.openGroup key).groups, g.key = k :=
    fun k ⟨g, hg, hKey⟩ => ⟨g, mem_append_left _ hg, hKey⟩
  exact
    { h with
      distinct := by
        simp only [IntegrityLedger.openGroup, map_append, map_singleton]
        refine nodup_append.mpr ⟨h.distinct, nodup_singleton _, ?_⟩
        simpa using hAbsent
      details := forall_mem_append.mpr ⟨h.details,
        forall_mem_singleton.mpr hNoCopy.symm⟩
      overflow := forall_mem_append.mpr ⟨h.overflow,
        forall_mem_singleton.mpr hNoEvent.symm⟩
      copy_group := fun copy hCopy => hWider copy.key (h.copy_group copy hCopy)
      event_group := fun event hEvent => hWider event.key (h.event_group event hEvent)
      dropped_full := fun hDropped => absurd hEmpty hDropped
      dropped_apart := by simp [hEmpty]
      groups_counted := by simp [IntegrityLedger.openGroup, h.groups_counted]
      groups_le := by
        rw [h.groups_counted] at hRoom
        simpa [IntegrityLedger.openGroup] using Nat.succ_le_of_lt hRoom
      details_le := forall_mem_append.mpr ⟨h.details_le, by simp⟩ }

variable {g : IntegrityGroup}

theorem keepCopy {copy : IntegrityCopy} (hGroup : g ∈ l.groups) (hKey : g.key = copy.key)
    (hDetails : g.retainedDetails < browserGroupDetailLimit)
    (hRecs : l.evidenceRecords < browserEvidenceRecordLimit)
    (hBytes : l.evidenceBytes + copy.bytes ≤ browserEvidenceByteLimit) :
    (l.keepCopy copy).Accounts grouped dropped := by
  have hKeys : (l.keepCopy copy).groups.map IntegrityGroup.key = l.groups.map IntegrityGroup.key :=
    updateGroup_keys fun _ => rfl
  have hLen : (l.keepCopy copy).groups.length = l.groups.length := by
    simpa using congrArg List.length hKeys
  have hSame : ∀ g' ∈ l.groups, g'.key = copy.key → g' = g := fun g' hg' hKey' =>
    inj_on_of_nodup_map h.distinct hg' hGroup (hKey'.trans hKey.symm)
  rw [h.records_counted] at hRecs
  rw [h.bytes_counted] at hBytes
  exact
    { h with
      distinct := hKeys ▸ h.distinct
      details := fun g' hg' => by
        simp only [IntegrityLedger.keepCopy, countP_append, countP_singleton]
        obtain ⟨old, hOld, ⟨hAt, rfl⟩ | ⟨hApart, rfl⟩⟩ := mem_updateGroup.mp hg'
        · simp [h.details old hOld, hAt]
        · simp [h.details _ hOld, Ne.symm hApart]
      overflow := fun g' hg' => by
        obtain ⟨old, hOld, ⟨-, rfl⟩ | ⟨-, rfl⟩⟩ := mem_updateGroup.mp hg'
        · exact h.overflow old hOld
        · exact h.overflow _ hOld
      copy_group := by
        simp only [exists_key_congr hKeys]
        exact forall_mem_append.mpr ⟨h.copy_group, forall_mem_singleton.mpr ⟨g, hGroup, hKey⟩⟩
      event_group := fun event hEvent => by
        rw [exists_key_congr hKeys]
        exact h.event_group event hEvent
      dropped_full := hLen ▸ h.dropped_full
      dropped_apart := fun event hEvent g' hg' hSameKey => by
        obtain ⟨old, hOld, hOldKey⟩ := (exists_key_congr hKeys event.key).mp ⟨g', hg', hSameKey⟩
        exact h.dropped_apart event hEvent old hOld hOldKey
      groups_counted := hLen ▸ h.groups_counted
      records_counted := by simp [IntegrityLedger.keepCopy, h.records_counted]
      bytes_counted := by simp [IntegrityLedger.keepCopy, h.bytes_counted]
      groups_le := hLen ▸ h.groups_le
      details_le := fun g' hg' => by
        obtain ⟨old, hOld, ⟨hAt, rfl⟩ | ⟨-, rfl⟩⟩ := mem_updateGroup.mp hg'
        · rw [hSame old hOld hAt]
          exact hDetails
        · exact h.details_le _ hOld
      records_le := by simpa [IntegrityLedger.keepCopy] using Nat.succ_le_of_lt hRecs
      bytes_le := by simpa [IntegrityLedger.keepCopy] using hBytes }

theorem countInGroup (hGroup : g ∈ l.groups) (hKey : g.key = event.key) :
    (l.countInGroup event.key).Accounts (grouped ++ [event]) dropped := by
  have hKeys : (l.countInGroup event.key).groups.map IntegrityGroup.key =
      l.groups.map IntegrityGroup.key := updateGroup_keys fun _ => rfl
  have hLen : (l.countInGroup event.key).groups.length = l.groups.length := by
    simpa using congrArg List.length hKeys
  exact
    { h with
      distinct := hKeys ▸ h.distinct
      details := fun g' hg' => by
        obtain ⟨old, hOld, ⟨-, rfl⟩ | ⟨-, rfl⟩⟩ := mem_updateGroup.mp hg'
        · exact h.details old hOld
        · exact h.details _ hOld
      overflow := fun g' hg' => by
        obtain ⟨old, hOld, ⟨hAt, rfl⟩ | ⟨hApart, rfl⟩⟩ := mem_updateGroup.mp hg'
        · simp [h.overflow old hOld, hAt]
        · simp [h.overflow _ hOld, Ne.symm hApart]
      copy_group := fun copy hCopy => by
        rw [exists_key_congr hKeys]
        exact h.copy_group copy hCopy
      event_group := by
        simp only [exists_key_congr hKeys]
        exact forall_mem_append.mpr ⟨h.event_group, forall_mem_singleton.mpr ⟨g, hGroup, hKey⟩⟩
      dropped_full := hLen ▸ h.dropped_full
      dropped_apart := fun other hOther g' hg' hSameKey => by
        obtain ⟨old, hOld, hOldKey⟩ := (exists_key_congr hKeys other.key).mp ⟨g', hg', hSameKey⟩
        exact h.dropped_apart other hOther old hOld hOldKey
      groups_counted := hLen ▸ h.groups_counted
      groups_le := hLen ▸ h.groups_le
      details_le := fun g' hg' => by
        obtain ⟨old, hOld, ⟨-, rfl⟩ | ⟨-, rfl⟩⟩ := mem_updateGroup.mp hg'
        · exact h.details_le old hOld
        · exact h.details_le _ hOld }

theorem countInAttempt (hNone : l.group event.key = none)
    (hFull : browserFlagGroupLimit ≤ l.flagGroups) :
    l.countInAttempt.Accounts grouped (dropped ++ [event]) :=
  { h with
    dropped_full := fun _ => h.groups_counted ▸ hFull
    dropped_apart := forall_mem_append.mpr
      ⟨h.dropped_apart, forall_mem_singleton.mpr (group_eq_none_iff.mp hNone)⟩
    attempt := by simp [IntegrityLedger.countInAttempt, h.attempt] }

end

theorem perm_move_last {γ : Type} (x : γ) (xs ys : List γ) :
    (xs ++ ([x] ++ ys)).Perm (xs ++ ys ++ [x]) := by
  rw [append_assoc]
  exact perm_append_comm.append_left xs

variable (h : l.Accounts grouped dropped)
include h

theorem retainInGroup
    (hGroup : g ∈ l.groups) (hKey : g.key = event.key)
    (hRetain : l.retainInGroup g.retainedDetails event = .ok l') :
    ∃ grouped', l'.Accounts grouped' dropped ∧
      (l'.accounted grouped' dropped).Perm (l.accounted grouped dropped ++ [event]) := by
  simp only [IntegrityLedger.retainInGroup] at hRetain
  split at hRetain
  · cases hRetain
  next bytes hEnc =>
    split_ifs at hRetain with hRoom
    · cases hRetain
      simp only [Bool.and_eq_true, decide_eq_true_eq] at hRoom
      refine ⟨grouped, h.keepCopy hGroup hKey hRoom.1.1 hRoom.1.2 hRoom.2, ?_⟩
      have hEvent : IntegrityCopy.event ⟨event.source, event.sequence, event.key, bytes⟩ = event := by
        rw [IntegrityCopy.event, ← hEnc]
      simpa [IntegrityLedger.accounted, IntegrityLedger.keepCopy, hEvent] using
        perm_move_last event (l.copies.map IntegrityCopy.event) (grouped ++ dropped)
    · cases hRetain
      refine ⟨grouped ++ [event], h.countInGroup hGroup hKey, ?_⟩
      simpa [IntegrityLedger.accounted, IntegrityLedger.countInGroup] using
        perm_move_last event (l.copies.map IntegrityCopy.event ++ grouped) dropped

theorem retainBrowserIntegrity
    (hRetain : l.retainBrowserIntegrity event = .ok l') :
    ∃ grouped' dropped', l'.Accounts grouped' dropped' ∧
      (l'.accounted grouped' dropped').Perm (l.accounted grouped dropped ++ [event]) := by
  simp only [IntegrityLedger.retainBrowserIntegrity, h.live, Bool.false_eq_true, if_false] at hRetain
  split at hRetain
  next g hGroup =>
    obtain ⟨hMem, hKey⟩ := mem_of_group hGroup
    obtain ⟨grouped', hAccounts, hPerm⟩ := h.retainInGroup hMem hKey hRetain
    exact ⟨grouped', dropped, hAccounts, hPerm⟩
  next hNone =>
    split_ifs at hRetain with hFull
    · cases hRetain
      refine ⟨grouped, dropped ++ [event], h.countInAttempt hNone hFull, ?_⟩
      simp [IntegrityLedger.accounted, IntegrityLedger.countInAttempt]
    · have hOpen := h.openGroup hNone (by omega)
      obtain ⟨grouped', hAccounts, hPerm⟩ := hOpen.retainInGroup
        (mem_append_right _ (mem_singleton.mpr rfl)) rfl hRetain
      exact ⟨grouped', dropped, hAccounts, hPerm⟩

theorem retainAll {events : List QualifyingEvent}
    (hRetain : events.foldlM IntegrityLedger.retainBrowserIntegrity l = .ok l') :
    ∃ grouped' dropped', l'.Accounts grouped' dropped' ∧
      (l'.accounted grouped' dropped').Perm (l.accounted grouped dropped ++ events) := by
  induction events generalizing l grouped dropped with
  | nil =>
    obtain rfl := pure_ok hRetain
    exact ⟨grouped, dropped, h, by simp⟩
  | cons event rest ih =>
    obtain ⟨next, hNext, hRest⟩ := bind_ok hRetain
    obtain ⟨grouped', dropped', hAccounts, hPerm⟩ := h.retainBrowserIntegrity hNext
    obtain ⟨grouped'', dropped'', hFinal, hPerm'⟩ := ih hAccounts hRest
    refine ⟨grouped'', dropped'', hFinal, hPerm'.trans ?_⟩
    simpa using hPerm.append_right rest

end Accounts

end IntegrityLedger

end Ledger

/-! ## Interpreted rows -/

section Rows

variable {α : Type} {reading : Reading α}

def Advances (through : Int) (row row' : Row α) : Prop :=
  (row.interpreted = false ∧ row.sequence ≤ through ∧ row'.interpreted = true) ∨
    ((row.interpreted = true ∨ through < row.sequence) ∧ row' = row)

theorem advanceRows_advances {through : Int} {missingBefore : Int → Bool}
    {before rows rows' : List (Row α)}
    (hAdv : advanceRows reading through missingBefore before rows = .ok rows') :
    ∃ after, rows' = before ++ after ∧ List.Forall₂ (Advances through) rows after := by
  induction rows generalizing before with
  | nil =>
    cases hAdv
    exact ⟨[], by simp, .nil⟩
  | cons row rest ih =>
    simp only [advanceRows] at hAdv
    split at hAdv
    next hDue =>
      obtain ⟨payload, -, hRest⟩ := bind_ok hAdv
      obtain ⟨after, rfl, hAfter⟩ := ih hRest
      simp only [Bool.and_eq_true, Bool.not_eq_true', decide_eq_true_eq] at hDue
      exact ⟨{ row with interpreted := true, payload := payload } :: after, by simp,
        .cons (.inl ⟨hDue.1, hDue.2, rfl⟩) hAfter⟩
    next hKept =>
      obtain ⟨after, rfl, hAfter⟩ := ih hAdv
      refine ⟨row :: after, by simp, .cons (.inr ⟨?_, rfl⟩) hAfter⟩
      simpa [Decidable.or_iff_not_imp_left] using hKept

theorem interpreted_advance {through : Int} {rows after : List (Row α)}
    (hAdvances : List.Forall₂ (Advances through) rows after) :
    (after.filter fun row => row.interpreted).Perm
      ((rows.filter fun row => row.interpreted) ++ interpretedRows through rows after) := by
  induction hAdvances with
  | nil => simp [interpretedRows]
  | @cons row row' rows after hRow _ ih =>
    obtain ⟨hNew, hDue, hDone⟩ | ⟨hKept, rfl⟩ := hRow
    · have hReach : interpretedRows through (row :: rows) (row' :: after) =
          row' :: interpretedRows through rows after := by
        simp [interpretedRows, hNew, hDue]
      simp only [hReach, filter_cons, hNew, hDone, if_true, Bool.false_eq_true, if_false]
      exact (ih.cons row').trans perm_middle.symm
    · have hReach : interpretedRows through (row' :: rows) (row' :: after) =
          interpretedRows through rows after := by
        have hUnreached : ¬ (row'.interpreted = false ∧ row'.sequence ≤ through) := by
          rintro ⟨hNew, hDue⟩
          obtain hOld | hAhead := hKept
          · rw [hNew] at hOld
            cases hOld
          · omega
        simp [interpretedRows, hUnreached]
      simp only [hReach, filter_cons]
      split
      · exact ih.cons row'
      · exact ih

end Rows

/-! ## The events of a family -/

section Events

variable {α : Type} {reading : Reading α}

def SourceView.qualifying (reading : Reading α) (j : Nat) (v : SourceView α) :
    List QualifyingEvent :=
  (v.rows.filter fun row => row.interpreted).filterMap (Row.qualifying reading j v.participation)

def FamilyState.qualifyingAt (reading : Reading α) (f : FamilyState α) (j : Nat) :
    List QualifyingEvent :=
  f.views[j]?.elim [] (SourceView.qualifying reading j)

def FamilyState.qualifying (reading : Reading α) (f : FamilyState α) : List QualifyingEvent :=
  (List.range f.sources.length).flatMap (f.qualifyingAt reading)

variable {f f' g : FamilyState α} {j : Nat}

theorem qualifyingAt_eq_nil {i : Nat} (hBound : f.sources.length ≤ i) :
    f.qualifyingAt reading i = [] := by
  have hNone : f.views[i]? = none := getElem?_eq_none (by simpa [views] using hBound)
  simp [qualifyingAt, hNone]

theorem qualifying_eq {n : Nat} (hBound : f.sources.length ≤ n) :
    (List.range n).flatMap (f.qualifyingAt reading) = f.qualifying reading := by
  obtain ⟨k, rfl⟩ := Nat.exists_eq_add_of_le hBound
  rw [range_add, flatMap_append]
  refine append_right_eq_self.mpr (flatMap_eq_nil_iff.mpr fun i hi => ?_)
  obtain ⟨m, -, rfl⟩ := mem_map.mp hi
  exact qualifyingAt_eq_nil (Nat.le_add_right _ _)

theorem qualifying_perm {new : List QualifyingEvent} (hIndex : j < f'.sources.length)
    (hOthers : ∀ i, i ≠ j → f'.qualifyingAt reading i = f.qualifyingAt reading i)
    (hSrc : (f'.qualifyingAt reading j).Perm (f.qualifyingAt reading j ++ new)) :
    (f'.qualifying reading).Perm (f.qualifying reading ++ new) := by
  have hBound : j < max f.sources.length f'.sources.length := lt_max_of_lt_right hIndex
  rw [← qualifying_eq (le_max_left f.sources.length f'.sources.length),
    ← qualifying_eq (le_max_right f.sources.length f'.sources.length)]
  generalize max f.sources.length f'.sources.length = n at hBound ⊢
  have hRange := perm_cons_erase (mem_range.mpr hBound)
  have hRest : ((List.range n).erase j).flatMap (f'.qualifyingAt reading) =
      ((List.range n).erase j).flatMap (f.qualifyingAt reading) := by
    refine flatMap_congr fun i hi => hOthers i ?_
    exact (List.Nodup.mem_erase_iff nodup_range).mp hi |>.1
  refine (hRange.flatMap_right _).trans ?_
  refine List.Perm.trans ?_ ((hRange.flatMap_right _).symm.append_right new)
  simp only [flatMap_cons, hRest]
  refine (hSrc.append_right _).trans ?_
  simp only [append_assoc]
  exact perm_append_comm.append_left _

def Accounting (reading : Reading α) (f f' : FamilyState α) : Prop :=
  ∃ new, (f'.qualifying reading).Perm (f.qualifying reading ++ new) ∧
    new.foldlM IntegrityLedger.retainBrowserIntegrity f.integrity = .ok f'.integrity

theorem Accounting.refl (f : FamilyState α) : Accounting reading f f :=
  ⟨[], by simp, rfl⟩

theorem Accounting.trans {f'' : FamilyState α} (h : Accounting reading f f')
    (h' : Accounting reading f' f'') : Accounting reading f f'' := by
  obtain ⟨new, hPerm, hRetain⟩ := h
  obtain ⟨new', hPerm', hRetain'⟩ := h'
  refine ⟨new ++ new', ?_, ?_⟩
  · rw [← append_assoc]
    exact hPerm'.trans (hPerm.append_right new')
  · rw [foldlM_append]
    exact bind_ok_iff.mpr ⟨f'.integrity, hRetain, hRetain'⟩

theorem Kept.accounting (hKept : Kept f f') : Accounting reading f f' := by
  have hLen : f'.sources.length = f.sources.length := by
    simpa [FamilyState.views] using congrArg List.length hKept.views
  have hSame : f'.qualifying reading = f.qualifying reading := by
    have hAt : f'.qualifyingAt reading = f.qualifyingAt reading := by
      funext i
      simp [qualifyingAt, hKept.views]
    simp [qualifying, hLen, hAt]
  exact ⟨[], by simp [hSame], by simp [hKept.integrity, Pure.pure, Except.pure]⟩

theorem Edited.qualifyingAt {v : SourceView α} (hEdited : Edited j f g)
    (hView : g.views[j]? = some v) : (v.qualifying reading j).Perm (f.qualifyingAt reading j) := by
  obtain ⟨u, fresh, hOld, hOwner, hRows, hFresh⟩ | ⟨hNone, hRows⟩ := hEdited.source v hView
  · have hUnread : (fresh.filter fun row => row.interpreted) = [] :=
      filter_eq_nil_iff.mpr fun row hRow => by simp [(hFresh row hRow).1]
    have hFilter := hRows.filter fun row => row.interpreted
    rw [filter_append, hUnread] at hFilter
    simpa [FamilyState.qualifyingAt, hOld, SourceView.qualifying, hOwner] using
      hFilter.filterMap (Row.qualifying reading j u.participation)
  · simp [FamilyState.qualifyingAt, hNone, SourceView.qualifying, hRows]

theorem Review.accounting (hReview : Review reading f f') : Accounting reading f f' := by
  cases hReview with
  | keep hKept => exact hKept.accounting
  | @settle g _ now j s state rows integrity facts hEdited hSettles hSound =>
    have hBound := (List.getElem?_eq_some_iff.mp hSettles.source).1
    have hLen : f'.sources.length = g.sources.length := by
      simpa [views] using congrArg List.length hSettles.views
    have hIntegrity : f'.integrity = integrity := by rw [hSettles.result]; rfl
    refine ⟨(interpretedRows state.2.progress.settledThrough s.rows rows).filterMap
      (Row.qualifying reading j s.participation), qualifying_perm (hLen ▸ hBound) ?_ ?_, ?_⟩
    · intro i hi
      simp only [qualifyingAt, hSettles.views, getElem?_set_ne (Ne.symm hi),
        hEdited.others i hi]
    · have hView : f'.views[j]? = some (settledView state rows facts) := by
        rw [hSettles.views, getElem?_set_self (by simpa [views] using hBound)]
      have hOld : g.views[j]? = some s.view := by simp [views, hSettles.source]
      obtain ⟨after, rfl, hAdvances⟩ := advanceRows_advances hSettles.advance
      have hRows := (interpreted_advance hAdvances).filterMap
        (Row.qualifying reading j s.participation)
      rw [filterMap_append] at hRows
      have hSet : f'.qualifyingAt reading j = (rows.filter fun row => row.interpreted).filterMap
          (Row.qualifying reading j s.participation) := by
        simp only [qualifyingAt, hView, Option.elim_some, SourceView.qualifying,
          settledView, hSettles.status.fixed.2.2.2]
      rw [hSet]
      exact hRows.trans ((hEdited.qualifyingAt hOld).append_right _)
    · rw [hIntegrity, ← hEdited.integrity]
      exact hSettles.retained

theorem Reviews.accounting (hRev : Reviews reading f f') : Accounting reading f f' := by
  induction hRev with
  | refl => exact Accounting.refl f
  | tail _ hLast ih => exact ih.trans hLast.accounting

theorem row_qualifying {p : Nat} {row : Row α} {event : QualifyingEvent}
    (hRow : row.qualifying reading j p = some event) :
    event.source = j ∧ event.sequence = row.sequence := by
  simp only [Row.qualifying] at hRow
  split at hRow
  · cases hRow
  · obtain ⟨detail, -, rfl⟩ := Option.map_eq_some_iff.mp hRow
    exact ⟨rfl, rfl⟩

theorem qualifyingAt_ascending {intervals : Int} (hGood : f.Good false intervals) (i : Nat) :
    (f.qualifyingAt reading i).Pairwise fun event event' => event.sequence < event'.sequence := by
  cases hSrc : f.sources[i]? with
  | none => simp [qualifyingAt, views, hSrc]
  | some s =>
    have hRows := (rows_ascending (hGood.lane hSrc)).filter fun row => row.interpreted
    simp only [qualifyingAt, views, getElem?_map, hSrc,
      Option.map_some, Option.elim_some, SourceView.qualifying, DeliverySource.view]
    refine hRows.filterMap _ fun row row' hLess event hEvent event' hEvent' => ?_
    rw [(row_qualifying hEvent).2, (row_qualifying hEvent').2]
    exact hLess

theorem source_of_mem_qualifyingAt {i : Nat} {event : QualifyingEvent}
    (hEvent : event ∈ f.qualifyingAt reading i) : event.source = i := by
  cases hView : f.views[i]? with
  | none => simp [qualifyingAt, hView] at hEvent
  | some v =>
    simp only [qualifyingAt, hView, Option.elim_some, SourceView.qualifying,
      mem_filterMap] at hEvent
    obtain ⟨row, -, hRow⟩ := hEvent
    exact (row_qualifying hRow).1

theorem qualifying_distinct {intervals : Int} (hGood : f.Good false intervals) :
    ((f.qualifying reading).map fun event => (event.source, event.sequence)).Nodup := by
  rw [qualifying, map_flatMap, nodup_flatMap]
  constructor
  · intro i _
    refine pairwise_map.mpr ((qualifyingAt_ascending hGood i).imp fun hLess hSame => ?_)
    exact absurd (Prod.mk.inj hSame).2 (ne_of_lt hLess)
  refine nodup_range.imp fun hApart => ?_
  rintro ⟨k, n⟩ hFirst hSecond
  obtain ⟨event, hEvent, hAt⟩ := mem_map.mp hFirst
  obtain ⟨event', hEvent', hAt'⟩ := mem_map.mp hSecond
  have hSrc := source_of_mem_qualifyingAt hEvent
  have hSrc' := source_of_mem_qualifyingAt hEvent'
  exact hApart (hSrc.symm.trans (((Prod.mk.inj hAt).1.trans (Prod.mk.inj hAt').1.symm).trans
    hSrc'))

end Events

/-! ## Runs -/

section Runs

variable {α β : Type}

/-- The verified events that ask for evidence are at distinct positions, and each is accounted
for once: as a copy, in the count of its group, or in the count of the Attempt. -/
structure Attempt.EvidenceAccounted (reading : Reading α) (a : Attempt α β) : Prop where
  distinct : ((a.browser.qualifying reading).map fun event => (event.source, event.sequence)).Nodup
  accounted : ∃ grouped dropped, a.browser.integrity.Accounts grouped dropped ∧
    (a.browser.qualifying reading).Perm (a.browser.integrity.accounted grouped dropped)

/-- Along every run the evidence is accounted for within its limits. An operation accounts for
the events it verified and no others, so one that verifies none leaves the evidence alone. -/
theorem after_evidenceAccounted (browserReading : Reading α) (nativeReading : Reading β)
    (start : Instant) (ops : List (DeliveryOp α β)) :
    (Attempt.after browserReading nativeReading start ops).EvidenceAccounted browserReading ∧
      ∀ op : DeliveryOp α β, ∃ new, ((op.step browserReading nativeReading
            (Attempt.after browserReading nativeReading start ops)).browser.qualifying
          browserReading).Perm
          ((Attempt.after browserReading nativeReading start ops).browser.qualifying
            browserReading ++ new) ∧ (new = [] → (op.step browserReading nativeReading
            (Attempt.after browserReading nativeReading start ops)).browser.integrity =
          (Attempt.after browserReading nativeReading start ops).browser.integrity) := by
  have hReach := Attempt.after_reaches browserReading nativeReading start ops
  generalize Attempt.after browserReading nativeReading start ops = a at hReach ⊢
  refine ⟨⟨qualifying_distinct hReach.good.browser, ?_⟩, fun op => ?_⟩
  · obtain ⟨new, hPerm, hRetain⟩ := Reviews.accounting hReach.reviews
    obtain ⟨grouped, dropped, hAccounts, hAll⟩ :=
      IntegrityLedger.Accounts.retainAll IntegrityLedger.empty_accounts hRetain
    refine ⟨grouped, dropped, hAccounts, hPerm.trans ?_⟩
    exact hAll.symm
  · have hStep : Reaches browserReading a (op.step browserReading nativeReading a) :=
      op.step_reaches hReach.good
    obtain ⟨new, hPerm, hRetain⟩ := Reviews.accounting hStep.reviews
    refine ⟨new, hPerm, fun hNone => ?_⟩
    rw [hNone] at hRetain
    exact (pure_ok hRetain).symm

end Runs

end Proctor.Delivery
