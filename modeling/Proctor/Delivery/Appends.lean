import Proctor.Delivery.BrowserMoves

/-!
# Appends as retaining steps

The fresh rows of an append lie at positions nothing else covers. Those that
repair the head of the window are interpreted at once; the others fit in the
pending bytes beside the reserve.
-/

namespace Proctor.Delivery

open Ranges Ledger Fallible List

/-! ## Retained entries -/

section Retained

variable {α : Type}

theorem foldl_insertRow_perm (fresh rows : List (Row α)) :
    (fresh.foldl (fun rows row => insertRow row rows) rows).Perm (fresh ++ rows) := by
  induction fresh generalizing rows with
  | nil => exact List.Perm.refl _
  | cons row rest ih =>
    refine (ih _).trans ?_
    refine ((insertRow_perm row rows).append_left rest).trans ?_
    exact perm_middle

theorem foldl_insertRow_ascending {fresh rows : List (Row α)}
    (hRows : rows.Pairwise fun a b => a.sequence < b.sequence)
    (hFresh : fresh.Pairwise fun a b => a.sequence < b.sequence)
    (hApart : ∀ row ∈ fresh, ∀ r ∈ rows, r.sequence ≠ row.sequence) :
    (fresh.foldl (fun rows row => insertRow row rows) rows).Pairwise
      fun a b => a.sequence < b.sequence := by
  induction fresh generalizing rows with
  | nil => exact hRows
  | cons row rest ih =>
    have hSplit := pairwise_cons.mp hFresh
    refine ih (insertRow_ascending hRows (hApart row (by simp))) hSplit.2 fun next hNext r hr => ?_
    obtain rfl | hr := mem_cons.mp ((insertRow_perm row rows).mem_iff.mp hr)
    · exact ne_of_lt (hSplit.1 next hNext)
    · exact hApart next (mem_cons_of_mem _ hNext) r hr

theorem pendingOf_retain_le {fresh entries old : List Entry} {n : Int}
    (hPerm : entries.Perm (fresh ++ old)) (hOld : ∀ e ∈ old, 0 ≤ e.bytes)
    (hBelow : ∀ e ∈ fresh, e.sequence ≤ n) :
    pendingOf (entries.map (Entry.interpretThrough n)) ≤ pendingOf old := by
  have hReleased := releasedBy_nonneg (n := n) hOld
  have hFresh := pendingOf_le_releasedBy hBelow
  rw [pendingOf_interpretThrough, pendingOf_perm hPerm, releasedBy_perm hPerm]
  simp only [pendingOf, releasedBy, map_append, sum_append] at hFresh hReleased ⊢
  omega

theorem pendingOf_retain_add {fresh entries old : List Entry} {n : Int}
    (hPerm : entries.Perm (fresh ++ old)) (hOld : ∀ e ∈ old, 0 ≤ e.bytes)
    (hFresh : ∀ e ∈ fresh, 0 ≤ e.bytes) :
    pendingOf (entries.map (Entry.interpretThrough n)) - pendingOf old ≤ bytesOf fresh := by
  have hReleased : 0 ≤ releasedBy n (fresh ++ old) :=
    releasedBy_nonneg (forall_mem_append.mpr ⟨hFresh, hOld⟩)
  have hPend : pendingOf fresh ≤ bytesOf fresh := by
    refine sum_le_sum fun e he => ?_
    have := hFresh e he
    split <;> omega
  rw [pendingOf_interpretThrough, pendingOf_perm hPerm, releasedBy_perm hPerm]
  simp only [pendingOf, map_append, sum_append] at hPend ⊢
  omega

def DeliverySource.retain (s : DeliverySource α) (fresh : List (Row α)) (allocated seen : Int) :
    DeliverySource α :=
  { s with
    rows := fresh.foldl (fun rows row => insertRow row rows) s.rows
    allocated := allocated
    seen := seen }

structure Retainable (s : DeliverySource α) (fresh : List (Row α)) (allocated : Int) : Prop where
  ascending : fresh.Pairwise fun a b => a.sequence < b.sequence
  unstored : ∀ row ∈ fresh, ∀ r ∈ s.rows, r.sequence ≠ row.sequence
  undeclared : ∀ row ∈ fresh, ¬ s.lane.Missing row.sequence
  within : ∀ row ∈ fresh, 1 ≤ row.sequence ∧ row.sequence ≤ allocated
  counted : ∀ row ∈ fresh, 0 ≤ row.bytes
  pending : ∀ row ∈ fresh, row.interpreted = false
  allocated_le : s.allocated ≤ allocated
  bounded : ∀ b, s.lane.boundary = some b → allocated ≤ b

namespace Retainable

variable {s : DeliverySource α} {fresh : List (Row α)} {allocated seen contiguous n : Int}
  {rows : List (Row α)}

theorem perm (s : DeliverySource α) (fresh : List (Row α)) (allocated seen : Int) :
    (s.retain fresh allocated seen).lane.entries.Perm (entriesOf fresh ++ s.lane.entries) := by
  have hPerm := (foldl_insertRow_perm fresh s.rows).map Row.toEntry
  rwa [map_append] at hPerm

section

variable (h : Retainable s fresh allocated)
include h

theorem entries_ascending (hSound : s.lane.Sound) (seen : Int) :
    (s.retain fresh allocated seen).lane.entries.Pairwise fun a b => a.sequence < b.sequence :=
  pairwise_map.mpr
    (foldl_insertRow_ascending (rows_ascending hSound) h.ascending h.unstored)

theorem fresh_entries :
    ∀ e ∈ entriesOf fresh, 1 ≤ e.sequence ∧ e.sequence ≤ allocated ∧ 0 ≤ e.bytes ∧
      ¬ s.lane.Missing e.sequence := by
  intro e he
  obtain ⟨row, hRow, rfl⟩ := mem_map.mp he
  exact ⟨(h.within row hRow).1, (h.within row hRow).2, h.counted row hRow, h.undeclared row hRow⟩

theorem sound (hSound : s.lane.Sound) (seen : Int) :
    (s.retain fresh allocated seen).lane.Sound :=
  hSound.insert (perm s fresh allocated seen) (h.entries_ascending hSound seen) h.fresh_entries
    h.allocated_le h.bounded

theorem pendingOf_fresh :
    pendingOf (entriesOf fresh) = bytesOf (entriesOf fresh) := by
  simp only [pendingOf, bytesOf]
  congr 1
  refine map_congr_left fun e he => ?_
  obtain ⟨row, hRow, rfl⟩ := mem_map.mp he
  simp [h.pending row hRow]

end

variable (hRows : entriesOf rows =
  (entriesOf (s.retain fresh allocated seen).rows).map (Entry.interpretThrough n))
include hRows

theorem pending_eq (contiguous : Int) (h : Retainable s fresh allocated) (before : Int) :
    before + bytesOf (entriesOf fresh) - releasedBy n (entriesOf (s.retain fresh allocated seen).rows) =
      before + (pendingOf ((s.retain fresh allocated seen).settleAt rows contiguous n).lane.entries -
        pendingOf s.lane.entries) := by
  have hPerm := pendingOf_perm (perm s fresh allocated seen)
  have hFresh := h.pendingOf_fresh
  rw [settleAt_lane hRows]
  simp only [pendingOf_interpretThrough]
  rw [hPerm, ← hFresh]
  simp only [pendingOf, map_append, sum_append, DeliverySource.lane]
  omega

/-- What is retained is charged; it stays pending within the limit, or it closes the gap at the head. -/
theorem charged {native : Bool} {intervals : Int} {f : FamilyState α} (contiguous : Int)
    (h : Retainable s fresh allocated) (hSound : s.lane.Sound)
    (hFront : IsFrontier (s.retain fresh allocated seen).lane.Covered n) (hSeen : seen ≤ allocated)
    (hAdmits : (f.book native intervals).Admits (deliveryLimits native) s.lane.scope
      (recordsOf (entriesOf fresh), bytesOf (entriesOf fresh), allocated - s.allocated))
    (hPending : (∀ row ∈ fresh, row.sequence ≤ n) ∨ f.pending + bytesOf (entriesOf fresh) ≤
      deliveryPendingByteLimit - deliveryRepairReservationBytes) :
    Charged native intervals f s ((s.retain fresh allocated seen).settleAt rows contiguous n)
      (recordsOf (entriesOf fresh), bytesOf (entriesOf fresh), allocated - s.allocated) 0 where
  step := by
    rw [settleAt_lane hRows]
    exact .retain _ _ _ n (perm s fresh allocated seen) (h.entries_ascending hSound seen)
      h.fresh_entries h.allocated_le h.bounded hFront
  admits := .inr hAdmits
  pending := by
    rw [settleAt_lane hRows]
    refine hPending.imp (fun hBelow => ?_) fun hFits => ?_
    · refine pendingOf_retain_le (perm s fresh allocated seen) hSound.bytes_nonneg fun e he => ?_
      obtain ⟨row, hRow, rfl⟩ := mem_map.mp he
      exact hBelow row hRow
    · have hAdd := pendingOf_retain_add (n := n) (perm s fresh allocated seen) hSound.bytes_nonneg
        fun e he => (h.fresh_entries e he).2.2.1
      dsimp only
      omega
  ranges := .inl rfl
  seen := hSeen

end Retainable

end Retained

/-! ## Admitted events -/

section Admission

variable {α : Type} {reading : Reading α} {s : DeliverySource α} {status : BrowserSourceStatus}
  {summaryOnly : Bool} {gaps : List SequenceRange}

structure Vacant (s : DeliverySource α) (status : BrowserSourceStatus) (gaps : List SequenceRange)
    (n : Int) : Prop where
  unstored : ∀ row ∈ s.rows, row.sequence ≠ n
  undeclared : ¬ Covers gaps n
  bounded : status.closure.closedAt.isSome → n ≤ status.closure.boundary

theorem checkBrowserAppendPosition_ok {n : Int} {u : Unit}
    (hCheck : checkBrowserAppendPosition status summaryOnly gaps n = .ok u) :
    summaryOnly = false ∧ ¬ Covers gaps n ∧
      (status.closure.closedAt.isSome → n ≤ status.closure.boundary) := by
  simp only [checkBrowserAppendPosition] at hCheck
  split_ifs at hCheck with hStop hDecl hBeyond
  simp only [Bool.or_eq_true, not_or, Bool.not_eq_true] at hStop
  simp only [any_eq_true, Bool.and_eq_true, decide_eq_true_eq] at hDecl
  simp only [Bool.and_eq_true, decide_eq_true_eq, not_and, not_lt, gt_iff_lt] at hBeyond
  exact ⟨hStop.2, hDecl, hBeyond⟩

theorem admitBrowserAppendEvent_ok {e : BrowserEvent α} {fresh : Bool}
    (hAdmit : admitBrowserAppendEvent reading s status summaryOnly gaps e = .ok fresh) :
    (fresh → summaryOnly = false ∧ Vacant s status gaps e.sequence) ∧
      (fresh = false → ∃ row ∈ s.rows, row.sequence = e.sequence) := by
  simp only [admitBrowserAppendEvent] at hAdmit
  split at hAdmit
  next row hRow =>
    obtain ⟨-, -, rfl⟩ := bind_pure_ok hAdmit
    exact ⟨nofun, fun _ => ⟨row, mem_of_find?_eq_some hRow,
      by simpa using find?_some hRow⟩⟩
  next hNone =>
    simp only [bind_ok_iff, pure_ok_iff] at hAdmit
    obtain ⟨u, hCheck, -, -, rfl⟩ := hAdmit
    obtain ⟨hColl, hUndeclared, hBounded⟩ := checkBrowserAppendPosition_ok hCheck
    exact ⟨fun _ => ⟨hColl, fun row hr => by simpa using find?_eq_none.mp hNone row hr,
      hUndeclared, hBounded⟩, nofun⟩

theorem admitBrowserAppendEvents_ok {events fresh : List (BrowserEvent α)}
    (hAdmit : admitBrowserAppendEvents reading s status summaryOnly gaps events = .ok fresh) :
    fresh.Sublist events ∧ (∀ e ∈ fresh, summaryOnly = false ∧ Vacant s status gaps e.sequence) ∧
      ∀ e ∈ events, e ∈ fresh ∨ ∃ row ∈ s.rows, row.sequence = e.sequence := by
  induction events generalizing fresh with
  | nil =>
    cases hAdmit
    simp
  | cons e rest ih =>
    simp only [admitBrowserAppendEvents, bind_ok_iff, pure_ok_iff] at hAdmit
    obtain ⟨isFresh, hEvent, admitted, hRest, rfl⟩ := hAdmit
    obtain ⟨hSublist, hVacant, hStored⟩ := ih hRest
    obtain ⟨hNew, hOld⟩ := admitBrowserAppendEvent_ok hEvent
    cases isFresh with
    | true =>
      refine ⟨hSublist.cons_cons e, ?_, ?_⟩
      · exact forall_mem_cons.mpr ⟨hNew rfl, hVacant⟩
      · exact forall_mem_cons.mpr ⟨Or.inl (by simp), fun e' he' =>
          (hStored e' he').imp (mem_cons_of_mem _) id⟩
    | false =>
      exact ⟨hSublist.cons e, hVacant, forall_mem_cons.mpr ⟨Or.inr (hOld rfl), hStored⟩⟩

theorem increasingSequences_iff (previous : Int) (events : List (BrowserEvent α)) :
    increasingSequences previous events → (events.Pairwise fun a b => a.sequence < b.sequence) ∧
        ∀ e ∈ events, previous < e.sequence := by
  induction events generalizing previous with
  | nil => simp
  | cons e rest ih =>
    intro hIncreasing
    simp only [increasingSequences, Bool.and_eq_true, decide_eq_true_eq] at hIncreasing
    obtain ⟨hPairwise, hAfter⟩ := ih e.sequence hIncreasing.2
    refine ⟨pairwise_cons.mpr ⟨hAfter, hPairwise⟩, forall_mem_cons.mpr
      ⟨hIncreasing.1.1, fun e' he' => hIncreasing.1.1.trans (hAfter e' he')⟩⟩

theorem consecutive_covers {first : BrowserEvent α} {rest : List (BrowserEvent α)}
    (hConsecutive : consecutive (first :: rest)) :
    ∀ e ∈ first :: rest, ∀ k, first.sequence ≤ k → k ≤ e.sequence →
      ∃ e' ∈ first :: rest, e'.sequence = k := by
  induction rest generalizing first with
  | nil =>
    intro e he k hLow hHigh
    obtain rfl := mem_singleton.mp he
    exact ⟨e, by simp, by omega⟩
  | cons next rest ih =>
    simp only [consecutive, Bool.and_eq_true, decide_eq_true_eq] at hConsecutive
    intro e he k hLow hHigh
    by_cases hFirst : k = first.sequence
    · exact ⟨first, by simp, hFirst.symm⟩
    obtain rfl | he := mem_cons.mp he
    · omega
    · obtain ⟨e', he', hSame⟩ := ih hConsecutive.2 e he k (by omega) hHigh
      exact ⟨e', mem_cons_of_mem _ he', hSame⟩

end Admission

/-! ## The Browser append -/

section BrowserAppend

variable {α : Type}

theorem le_admittedThrough (allocated : Int) (fresh : List (BrowserEvent α)) :
    allocated ≤ admittedThrough allocated fresh ∧
      ∀ e ∈ fresh, e.sequence ≤ admittedThrough allocated fresh := by
  induction fresh generalizing allocated with
  | nil => simp [admittedThrough]
  | cons e rest ih =>
    obtain ⟨hStart, hRest⟩ := ih (max allocated e.sequence)
    exact ⟨(le_max_left _ _).trans hStart,
      forall_mem_cons.mpr ⟨(le_max_right _ _).trans hStart, hRest⟩⟩

variable {allocated seen base bytes : Int} {status : BrowserSourceStatus} {summaryOnly : Bool}
   {nextAttempt nextPart : DeliveryQuotaUsage} {p j : Nat} {state : DeliverySource α × BrowserSourceStatus}
   {answer : FamilyState α × Outcome}

theorem admittedThrough_le {bound : Int} {fresh : List (BrowserEvent α)}
    (hAlloc : allocated ≤ bound) (hFresh : ∀ e ∈ fresh, e.sequence ≤ bound) :
    admittedThrough allocated fresh ≤ bound := by
  induction fresh generalizing allocated with
  | nil => exact hAlloc
  | cons e rest ih =>
    exact ih (max_le hAlloc (hFresh e (by simp)))
      fun e' he' => hFresh e' (mem_cons_of_mem _ he')

theorem recordsOf_events (fresh : List (BrowserEvent α)) :
    recordsOf (entriesOf (fresh.map BrowserEvent.row)) = fresh.length := by
  induction fresh with
  | nil => rfl
  | cons e rest ih =>
    simp only [recordsOf, entriesOf, map_cons, sum_cons, length_cons] at ih ⊢
    rw [ih]
    simp [BrowserEvent.row, add_comm]

theorem bytesOf_events (fresh : List (BrowserEvent α)) :
    bytesOf (entriesOf (fresh.map BrowserEvent.row)) = eventBytes fresh := by
  simp [bytesOf, entriesOf, eventBytes, BrowserEvent.row, Function.comp_def]

variable {reading : Reading α} {now : Instant} {intervals : Int} {f f' : FamilyState α}
  {s : DeliverySource α} {input : BrowserAppend α} {fresh : List (BrowserEvent α)}

theorem retainable_events
    (hSound : s.lane.Sound) (hClosure : status.closure = s.closure) (hValid : input.validate)
    (hAdmit : admitBrowserAppendEvents reading s status summaryOnly s.gaps input.events = .ok fresh) :
    Retainable s (fresh.map BrowserEvent.row) (admittedThrough s.allocated fresh) := by
  obtain ⟨hSublist, hVacant, -⟩ := admitBrowserAppendEvents_ok hAdmit
  simp only [BrowserAppend.validate, Bool.and_eq_true] at hValid
  obtain ⟨hAsc, hPositive⟩ := increasingSequences_iff 0 input.events hValid.2
  obtain ⟨hStart, hReach⟩ := le_admittedThrough s.allocated fresh
  have hMap : ∀ {P : Row α → Prop}, (∀ e ∈ fresh, P e.row) →
      ∀ row ∈ fresh.map BrowserEvent.row, P row := by
    intro P hEvents row hRow
    obtain ⟨e, he, rfl⟩ := mem_map.mp hRow
    exact hEvents e he
  exact
    { ascending := pairwise_map.mpr (hAsc.sublist hSublist)
      unstored := hMap fun e he => (hVacant e he).2.unstored
      undeclared := hMap fun e he hMiss =>
        (hVacant e he).2.undeclared ((covers_gaps hSound _).mpr hMiss)
      within := hMap fun e he => ⟨hPositive e (hSublist.subset he), hReach e he⟩
      counted := hMap fun e _ => Int.natCast_nonneg e.bytes
      pending := hMap fun e _ => rfl
      allocated_le := hStart
      bounded := fun b hb => by
        have hWithin := hSound.bounded b hb
        simp only [DeliverySource.lane, DeliverySource.boundary] at hb
        split at hb
        next hClosed =>
          cases hb
          refine admittedThrough_le hWithin fun e he => ?_
          have hBounded := (hVacant e he).2.bounded
          rw [hClosure] at hBounded
          exact hBounded hClosed
        · cases hb }

theorem covered_retain {rows : List (Row α)} {k : Int} (hCovered : s.lane.Covered k) :
    (s.retain rows allocated seen).lane.Covered k := by
  obtain ⟨e, he, hSame⟩ | hOther := hCovered
  · refine Or.inl ⟨e, ?_, hSame⟩
    exact (Retainable.perm s rows allocated seen).mem_iff.mpr (mem_append_right _ he)
  · exact Or.inr hOther

theorem repair_below {n : Int}
    (hAdmit : admitBrowserAppendEvents reading s status summaryOnly s.gaps input.events = .ok fresh)
    (hBase : IsFrontier s.lane.Covered base) (hRepair : input.repairs base)
    (hFront : IsFrontier (s.retain (fresh.map BrowserEvent.row) allocated seen).lane.Covered n) :
    ∀ row ∈ fresh.map BrowserEvent.row, row.sequence ≤ n := by
  obtain ⟨hSublist, -, hStored⟩ := admitBrowserAppendEvents_ok hAdmit
  intro row hRow
  obtain ⟨e, he, rfl⟩ := mem_map.mp hRow
  have hMem := hSublist.subset he
  refine hFront.le_of_below fun k hLow hHigh => ?_
  by_cases hSet : k ≤ base
  · exact covered_retain (hBase.below k hLow hSet)
  cases hEvents : input.events with
  | nil => simp [hEvents] at hMem
  | cons first rest =>
    simp only [BrowserAppend.repairs, hEvents, head?_cons, Option.any_some,
      Bool.and_eq_true, decide_eq_true_eq] at hRepair
    rw [hEvents] at hMem
    obtain ⟨e', he', rfl⟩ := consecutive_covers hRepair.2 e hMem k (by omega) hHigh
    obtain hNew | ⟨row, hOld, hSame⟩ := hStored e' (hEvents ▸ he')
    · refine Or.inl ⟨e'.row.toEntry, ?_, rfl⟩
      refine (Retainable.perm s _ allocated seen).mem_iff.mpr (mem_append_left _ ?_)
      exact mem_map_of_mem (mem_map_of_mem hNew)
    · exact covered_retain (Or.inl ⟨row.toEntry, mem_map_of_mem hOld, hSame⟩)

theorem scopes_getElem?_browser {counters : ScopeCounters} {scope : Scope}
    (hCtrs : f.participations[p]? = some counters)
    (hScope : (f.book false intervals).scopes[p]? = some scope) : scope = counters.scope := by
  simp only [FamilyState.book, FamilyState.scopes, Bool.false_eq_true, if_false,
    getElem?_map, hCtrs, Option.map_some, Option.some.injEq] at hScope
  exact hScope.symm

theorem browser_admits {counters : ScopeCounters} {records positions : Int}
    (hCtrs : f.participations[p]? = some counters)
    (hPart : (counters.usage false false).charge records bytes positions = .ok nextPart)
    (hAtt : (f.attempt.usage false true).charge records bytes positions = .ok nextAttempt)
    (hColl : ¬ (nextPart.summaryOnly || nextAttempt.summaryOnly)) :
    (f.book false intervals).Admits (deliveryLimits false) p (records, bytes, positions) := by
  simp only [Bool.or_eq_true, not_or, Bool.not_eq_true] at hColl
  obtain ⟨hOpen, -, -, -, hRecs, hBytes, hPos, -⟩ :=
    DeliveryQuotaUsage.charge_fits hPart hColl.1
  obtain ⟨hOpen', -, -, -, hRecs', hBytes', hPos', -⟩ :=
    DeliveryQuotaUsage.charge_fits hAtt hColl.2
  refine ⟨fun scope hScope => ?_, hOpen', hRecs', hBytes', hPos'⟩
  obtain rfl := scopes_getElem?_browser hCtrs hScope
  exact ⟨hOpen, hRecs, hBytes, hPos⟩

theorem insertEvents_eq (f : FamilyState α) (j : Nat) (s : DeliverySource α)
    (fresh : List (BrowserEvent α)) (allocated delta : Int) : f.insertEvents j s fresh allocated delta =
      f.chargeSource j (s.retain (fresh.map BrowserEvent.row) allocated
          (max s.seen ((fresh.getLast?.map BrowserEvent.sequence).getD 0)))
        fresh.length (eventBytes fresh) delta (f.pending + eventBytes fresh) := by
  simp only [FamilyState.insertEvents, FamilyState.chargeSource, DeliverySource.retain,
    foldl_map]

theorem chargeSource_putSource (f : FamilyState α) (j : Nat) {s s' : DeliverySource α}
    (hOwner : s'.participation = s.participation) (records bytes positions pending pending' : Int) :
    { (f.chargeSource j s records bytes positions pending).putSource j s' with
      pending := pending' } = f.chargeSource j s' records bytes positions pending' := by
  simp [FamilyState.chargeSource, FamilyState.putSource, FamilyState.charge, hOwner]

@[simp]
theorem chargeSource_pending (f : FamilyState α) (j : Nat) (s : DeliverySource α)
    (records bytes positions pending : Int) :
    (f.chargeSource j s records bytes positions pending).pending = pending := rfl

theorem getElem?_chargeSource (hSrc : f.sources[j]? = some s) (s' : DeliverySource α)
    (records bytes positions pending : Int) :
    (f.chargeSource j s' records bytes positions pending).sources[j]? = some s' := by
  have hBound := (List.getElem?_eq_some_iff.mp hSrc).1
  simp [FamilyState.chargeSource, FamilyState.putSource, FamilyState.charge, hBound]

theorem seen_le_admittedThrough (hSeen : s.seen ≤ s.allocated) (hNonneg : 0 ≤ s.allocated)
    (fresh : List (BrowserEvent α)) : max s.seen ((fresh.getLast?.map BrowserEvent.sequence).getD 0) ≤
      admittedThrough s.allocated fresh := by
  obtain ⟨hStart, hReach⟩ := le_admittedThrough s.allocated fresh
  refine max_le (hSeen.trans hStart) ?_
  cases hLast : fresh.getLast? with
  | none => exact hNonneg.trans hStart
  | some e => exact hReach e (mem_of_getLast? hLast)

theorem edited_retain {fresh : List (Row α)}
    (hSrc : f.sources[j]? = some s) (records bytes positions pending : Int)
    (hFresh : ∀ row ∈ fresh, row.Arrives) : Edited j f
      (f.chargeSource j (s.retain fresh allocated seen) records bytes positions pending) := by
  have hPut : Edited j f (f.putSource j (s.retain fresh allocated seen)) :=
    edited_putSource hSrc rfl ((foldl_insertRow_perm fresh s.rows).trans perm_append_comm) hFresh
  exact hPut.trans_kept (kept_of_sources rfl rfl rfl rfl)

theorem insertEvents_moves (hGood : f.Good false intervals) (hSrc : f.sources[input.source]? = some s)
    (hStat : StatusOf now s state) (hUndue : state.1 = s)
    (hOpen : s.closure.isExpired now = false) (hValid : input.validate)
    (hAdmit : admitBrowserAppendEvents reading s state.2 summaryOnly s.gaps input.events = .ok fresh)
    (hAdmits : (f.book false intervals).Admits (deliveryLimits false) s.lane.scope
      (fresh.length, eventBytes fresh, admittedThrough s.allocated fresh - s.allocated))
    (hRepair : input.repairs state.2.progress.windowBase = false →
      f.pending + eventBytes fresh ≤ deliveryPendingByteLimit - deliveryRepairReservationBytes)
    (hSettle : settleBrowserSource reading now (f.insertEvents input.source s fresh
      (admittedThrough s.allocated fresh) (admittedThrough s.allocated fresh - s.allocated))
      input.source = .ok f') : Moves false intervals intervals f f' ∧ Reviews reading f f' := by
  have hSound := hGood.lane hSrc
  have hSeen := seen_le_admittedThrough (hGood.seen hSrc) hSound.allocated_nonneg fresh
  have hClosure : state.2.closure = s.closure := by rw [hStat.closure, hUndue]
  have hRetain : Retainable s _ _ := retainable_events hSound hClosure hValid hAdmit
  rw [insertEvents_eq] at hSettle
  generalize max s.seen ((fresh.getLast?.map BrowserEvent.sequence).getD 0) = seen at hSeen hSettle
  generalize hAlloc : admittedThrough s.allocated fresh = allocated at *
  have hStored := getElem?_chargeSource hSrc (s.retain (fresh.map BrowserEvent.row) allocated seen)
    fresh.length (eventBytes fresh) (allocated - s.allocated) (f.pending + eventBytes fresh)
  have hRet := hRetain.sound hSound seen
  obtain ⟨s₁, state₁, rows, integrity, facts, hSet⟩ := settleBrowserSource_ok hSettle
    (fun t ht => by
      cases hStored.symm.trans ht
      exact hRet.bytes_nonneg)
    (fun t ht => by
      cases hStored.symm.trans ht
      exact hSeen)
  cases hStored.symm.trans hSet.source
  have hStat₁ := hSet.status
  have hRows := hSet.entries
  have hMarks : Quiet false intervals _ f' := hSet.marks
  have hUndue₁ : state₁.1 = s.retain (fresh.map BrowserEvent.row) allocated seen := by
    obtain hSame | ⟨hExp, -⟩ := hStat₁.stored
    · exact hSame
    · exact absurd hExp (by simp [DeliverySource.retain, hOpen])
  have hProg := hStat₁.progress
  have hRev : Reviews reading f f' := by
    refine .single (.settle (edited_retain hSrc _ _ _ _ fun row hRow => ?_) hSet
      (hUndue₁ ▸ hRet))
    obtain ⟨e, -, rfl⟩ := mem_map.mp hRow
    exact ⟨rfl, rfl⟩
  rw [hUndue₁] at hProg hMarks
  have hFront := frontier_of_resolve hRet hProg
  have hOwner : ((s.retain (fresh.map BrowserEvent.row) allocated seen).settleAt rows
      state₁.2.progress.highestContiguous state₁.2.progress.settledThrough).participation =
      (s.retain (fresh.map BrowserEvent.row) allocated seen).participation := rfl
  rw [chargeSource_putSource f input.source hOwner, chargeSource_pending] at hMarks
  rw [← recordsOf_events, ← bytesOf_events] at hAdmits hMarks
  rw [hRetain.pending_eq hRows state₁.2.progress.highestContiguous] at hMarks
  have hCharged := hRetain.charged hRows state₁.2.progress.highestContiguous hSound hFront hSeen hAdmits (by
    cases hWin : input.repairs state.2.progress.windowBase with
    | true =>
      have hRes := (resolveDeliveryProgress_spec hStat.progress).2
      have hBefore := hStat.progress
      rw [hUndue] at hBefore
      rw [hRes.windowBase] at hWin
      exact .inl (repair_below hAdmit (frontier_of_resolve hSound hBefore) hWin hFront)
    | false => exact .inr (bytesOf_events fresh ▸ hRepair hWin))
  have hMoves := hCharged.moves_source hSrc
  rw [add_zero] at hMoves
  exact ⟨hMoves.trans hMarks.toMoves, hRev⟩

/-- An answered request moved the family, and only an accepted one charged it. -/
structure Answered (reading : Reading α) (intervals : Int) (f f' : FamilyState α)
    (outcome : Outcome) : Prop where
  moves : Moves false intervals intervals f f'
  quiet : outcome ≠ .accepted →
    usagesOf (f'.book false intervals) = usagesOf (f.book false intervals)
  reviews : Reviews reading f f'

theorem BrowserQuiet.answered (hQuiet : BrowserQuiet reading intervals f f') (outcome : Outcome) :
    Answered reading intervals f f' outcome :=
  ⟨hQuiet.toMoves, fun _ => hQuiet.usage, hQuiet.reviews⟩

theorem BrowserQuiet.then_answered {f'' : FamilyState α} {outcome : Outcome}
    (hQuiet : BrowserQuiet reading intervals f f')
    (h : Answered reading intervals f' f'' outcome) : Answered reading intervals f f'' outcome :=
  ⟨hQuiet.toMoves.trans h.moves, fun hRefused => (h.quiet hRefused).trans hQuiet.usage,
    hQuiet.reviews.trans h.reviews⟩

theorem refuseBrowserAppendOverBudget_quiet (hGood : f.Good false intervals)
    (hRefuse : refuseBrowserAppendOverBudget reading now f p nextPart nextAttempt = .ok answer) :
    BrowserQuiet reading intervals f answer.1 := by
  simp only [refuseBrowserAppendOverBudget] at hRefuse
  split at hRefuse
  · cases hRefuse
  obtain ⟨latched, hLatch, rfl⟩ := bind_pure_ok hRefuse
  exact latchBrowserDelivery_quiet hGood hLatch

theorem checkBrowserPendingCapacity_ok {part attempt : DeliveryQuotaUsage}
    {u : Unit} (hCheck : checkBrowserPendingCapacity f input base bytes part attempt = .ok u)
    (hOther : input.repairs base = false) :
    f.pending + bytes ≤ deliveryPendingByteLimit - deliveryRepairReservationBytes := by
  simp only [checkBrowserPendingCapacity, require_ok_iff, Bool.and_eq_true, hOther] at hCheck
  exact canRetainPendingDelivery_within hCheck.1

theorem retainBrowserAppendRecords_answered
    (hGood : f.Good false intervals) (hSrc : f.sources[input.source]? = some s)
    (hStat : StatusOf now s state) (hUndue : state.1 = s)
    (hOpen : s.closure.isExpired now = false) (hValid : input.validate)
    (hAdmit : admitBrowserAppendEvents reading s state.2 summaryOnly s.gaps input.events = .ok fresh)
    (hRetain : retainBrowserAppendRecords reading now f input s state.2 fresh = .ok answer) :
    Answered reading intervals f answer.1 answer.2 := by
  simp only [retainBrowserAppendRecords, hStat.allocated] at hRetain
  obtain ⟨counters, hCtrs, hRetain⟩ := bind_ok hRetain
  obtain ⟨-, -, hRetain⟩ := bind_ok hRetain
  obtain ⟨nextPart, hPart, hRetain⟩ := bind_ok hRetain
  obtain ⟨nextAttempt, hAtt, hRetain⟩ := bind_ok hRetain
  split_ifs at hRetain with hStop
  · exact (refuseBrowserAppendOverBudget_quiet hGood hRetain).answered _
  obtain ⟨u, hPend, hRetain⟩ := bind_ok hRetain
  obtain ⟨settled, hSettle, rfl⟩ := bind_pure_ok hRetain
  have hAdmits : (f.book false intervals).Admits (deliveryLimits false) s.lane.scope _ :=
    browser_admits (found_ok_iff.mp hCtrs) hPart hAtt hStop
  obtain ⟨hMoves, hRev⟩ := insertEvents_moves hGood hSrc hStat hUndue hOpen hValid hAdmit
    hAdmits (checkBrowserPendingCapacity_ok hPend) hSettle
  exact ⟨hMoves, fun hRefused => absurd rfl hRefused, hRev⟩

theorem performBrowserAppend_answered {parts : List Participation} (hGood : f.Good false intervals)
    (hAppend : performBrowserAppend reading now parts f input = .ok answer) :
    Answered reading intervals f answer.1 answer.2 := by
  obtain ⟨_, hValid, hAppend⟩ := bind_ok hAppend
  obtain ⟨locked, hLock, hAppend⟩ := bind_ok hAppend
  obtain ⟨s, hSrc, hAppend⟩ := bind_ok hAppend
  obtain ⟨counters, -, hAppend⟩ := bind_ok hAppend
  obtain ⟨state, hState, hAppend⟩ := bind_ok hAppend
  obtain ⟨-, -, hAppend⟩ := bind_ok hAppend
  obtain ⟨_, hCur, hAppend⟩ := bind_ok hAppend
  obtain ⟨fresh, hAdmit, hAppend⟩ := bind_ok hAppend
  obtain ⟨-, -, hAppend⟩ := bind_ok hAppend
  have hQuiet := lockBrowserDelivery_quiet hGood hLock
  have hGood' := hQuiet.good hGood
  replace hSrc := found_ok_iff.mp hSrc
  have hStat := browserSourceState_spec hState (hGood'.seen hSrc)
  have hOpen : state.2.closure.isExpired now = false := by simpa using require_ok_iff.mp hCur
  have hUndue := hStat.undue hOpen
  rw [hStat.closure, hUndue] at hOpen
  refine hQuiet.then_answered ?_
  split_ifs at hAppend
  · obtain ⟨settled, hSettle, rfl⟩ := bind_pure_ok hAppend
    exact (settleBrowserSource_quiet hGood' hSettle).answered _
  · exact retainBrowserAppendRecords_answered hGood' hSrc hStat hUndue hOpen
      (require_ok_iff.mp hValid) hAdmit hAppend

end BrowserAppend

end Proctor.Delivery
