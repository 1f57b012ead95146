import Proctor.Delivery.Runs

/-!
# Positions and counters along runs

What the ledger keeps of its books, read back for the sources, streams and
counters of an Attempt: after every operation of every run.
-/

namespace Proctor.Delivery

open Ranges Ledger Fallible List DeliverySource Attempt

/-! ## Reached books -/

section Books

variable {α β : Type} {reading : Reading α} {a a' : Attempt α β}

structure Attempt.Exact (a : Attempt α β) : Prop where
  browser : (a.browser.book false a.intervals).Exact
  native : (a.native.book true a.intervals).Exact

theorem Reaches.exact_ (h : Reaches reading a a') (hGood : a.Good) (hExact : a.Exact) : a'.Exact where
  browser := Changes.exact_ h.browser hGood.browser.sound hExact.browser
  native := Changes.exact_ h.native hGood.native.sound hExact.native

theorem Attempt.initial_exact (start : Instant) : (initial start : Attempt α β).Exact where
  browser := Book.empty_exact
  native := Book.empty_exact

theorem Attempt.after_exact (browserReading : Reading α) (nativeReading : Reading β)
    (start : Instant) (ops : List (DeliveryOp α β)) :
    (after browserReading nativeReading start ops).Exact :=
  (after_reaches browserReading nativeReading start ops).exact_
    (initial_good start) (initial_exact start)

end Books

/-! ## Positions -/

section Positions

variable {α : Type} {native : Bool} {intervals : Int} {f f' : FamilyState α}

/-- The positions of one source. Progress resolves at its terminal bound and at every later one
within the allocation, that of an expiry not yet stored included. -/
structure DeliverySource.PositionsSound (s : DeliverySource α) : Prop where
  disjoint : ∀ row ∈ s.rows, ∀ r ∈ s.declaredRanges,
    ¬ (r.first ≤ row.sequence ∧ row.sequence ≤ r.last)
  received : ∀ row ∈ s.rows, 1 ≤ row.sequence ∧ row.sequence ≤ s.allocated
  missing : ∀ r ∈ s.declaredRanges, 1 ≤ r.first ∧ r.first ≤ r.last ∧ r.last ≤ s.allocated
  terminal : 0 ≤ s.terminal ∧ s.terminal ≤ s.allocated
  bounded : s.isClosed = true → s.allocated ≤ s.closure.boundary
  resolves : ∀ terminal, s.terminal ≤ terminal → terminal ≤ s.allocated →
    ∃ progress, resolveDeliveryProgress (max s.allocated s.seen) s.received s.gaps terminal =
      .ok progress

structure DeliverySource.Grows (s s' : DeliverySource α) : Prop where
  allocated : s.allocated ≤ s'.allocated
  terminal : s.terminal ≤ s'.terminal
  settled : s.settled ≤ s'.settled

def FamilyState.Grows (f f' : FamilyState α) : Prop :=
  ∀ (j : Nat) (s : DeliverySource α), f.sources[j]? = some s →
    ∃ s', f'.sources[j]? = some s' ∧ s.Grows s'

theorem gaps_length_le {lanes : List Lane} {l : Lane} (hLane : l ∈ lanes) :
    (l.gaps.length : Int) ≤ gapTotal lanes := by
  refine single_le_sum (fun n hn => ?_) _ (mem_map_of_mem hLane)
  obtain ⟨m, -, rfl⟩ := mem_map.mp hn
  omega

theorem allocated_le_total {lanes : List Lane} {l : Lane} (hSound : ∀ m ∈ lanes, m.Sound)
    (hLane : l ∈ lanes) : l.allocated ≤ (total (fun _ => true) lanes).2.2 := by
  rw [total_eq, filter_true]
  refine single_le_sum (fun n hn => ?_) _ (mem_map_of_mem hLane)
  obtain ⟨m, hm, rfl⟩ := mem_map.mp hn
  exact (hSound m hm).allocated_nonneg

theorem FamilyState.Good.positionsSound (hGood : f.Good native intervals)
    (hExact : (f.book native intervals).Exact) {s : DeliverySource α} (hs : s ∈ f.sources) :
    s.PositionsSound := by
  obtain ⟨j, hj⟩ := mem_iff_getElem?.mp hs
  have hSound := hGood.lane hj
  have hLane : s.lane ∈ (f.book native intervals).lanes := mem_map_of_mem hs
  have hAlloc : s.allocated ≤ browserAttemptPositionLimit := by
    have hTotal := allocated_le_total hGood.sound.lane hLane
    have hWithin := hGood.sound.whole_within.2.2
    rw [hExact.whole_usage] at hWithin
    have hLimit : positionLimitOf native true ≤ browserAttemptPositionLimit := by
      cases native <;> decide
    exact (hTotal.trans hWithin).trans hLimit
  have hGaps : (s.declaredRanges.length : Int) ≤ deliveryMissingIntervalLimit :=
    ((gaps_length_le hLane).trans hGood.sound.gaps_le).trans hGood.sound.intervals_le
  exact
    { disjoint := fun row hRow r hr hMeets =>
        hSound.disjoint row.sequence ⟨row.toEntry, mem_map_of_mem hRow, rfl⟩ ⟨r, hr, hMeets⟩
      received := fun row hRow => hSound.received_within row.toEntry (mem_map_of_mem hRow)
      missing := fun r hr =>
        ⟨(hSound.gaps_within r hr).1, hSound.gaps_proper r hr, (hSound.gaps_within r hr).2⟩
      terminal := ⟨hSound.terminal_nonneg, hSound.terminal_le⟩
      bounded := fun hClosed => hSound.bounded _ (by
        simp [DeliverySource.lane, DeliverySource.boundary, hClosed])
      resolves := fun terminal hLow hHigh => by
        have hPlaced := placed_of_sound hSound hAlloc hGaps
        rw [max_eq_left (hGood.seen hj)]
        exact resolveDeliveryProgress_eq_ok { hPlaced with
          terminal_nonneg := hSound.terminal_nonneg.trans hLow
          terminal_le := hHigh } }

theorem grows_of_extends {native : Bool} {i i' : Int}
    (hExtends : (f.book native i).Extends (f'.book native i')) : f.Grows f' := by
  intro j s hs
  obtain ⟨l, hl, hLane⟩ := hExtends.lane j s.lane (lanes_getElem? hs)
  simp only [FamilyState.book, getElem?_map, Option.map_eq_some_iff] at hl
  obtain ⟨s', hs', rfl⟩ := hl
  exact ⟨s', hs', hLane.allocated, hLane.terminal, hLane.settled⟩

end Positions

section PositionRuns

variable {α β : Type}

/-- After every operation of a run the positions of every source and stream are sound, and the
next operation takes none of them back. -/
theorem after_positionsSound (browserReading : Reading α) (nativeReading : Reading β)
    (start : Instant) (ops : List (DeliveryOp α β)) (op : DeliveryOp α β) :
    (∀ s ∈ (Attempt.after browserReading nativeReading start ops).browser.sources, s.PositionsSound) ∧
      (∀ s ∈ (Attempt.after browserReading nativeReading start ops).native.sources, s.PositionsSound) ∧
      (Attempt.after browserReading nativeReading start ops).browser.Grows
        (op.step browserReading nativeReading
          (Attempt.after browserReading nativeReading start ops)).browser ∧
      (Attempt.after browserReading nativeReading start ops).native.Grows
        (op.step browserReading nativeReading
          (Attempt.after browserReading nativeReading start ops)).native := by
  have hGood := (Attempt.after_reaches browserReading nativeReading start ops).good
  have hExact := Attempt.after_exact browserReading nativeReading start ops
  generalize Attempt.after browserReading nativeReading start ops = a at hGood hExact ⊢
  have hStep : Reaches browserReading a (op.step browserReading nativeReading a) :=
    op.step_reaches hGood
  exact ⟨fun s hs => hGood.browser.positionsSound hExact.browser hs,
    fun s hs => hGood.native.positionsSound hExact.native hs,
    grows_of_extends (Changes.extends_ hStep.browser hGood.browser.sound hExact.browser),
    grows_of_extends (Changes.extends_ hStep.native hGood.native.sound hExact.native)⟩

end PositionRuns

/-! ## Counters -/

section Counters

variable {α : Type} {native : Bool} {intervals : Int} {f f' : FamilyState α}

def usageOf (sources : List (DeliverySource α)) : Usage :=
  ((sources.map fun s => (s.rows.map fun row => row.records).sum).sum,
    (sources.map fun s => (s.rows.map fun row => row.bytes).sum).sum,
    (sources.map DeliverySource.allocated).sum)

structure FamilyState.CountersExact (native : Bool) (f : FamilyState α) : Prop where
  scope : ∀ (p : Nat) (scope : Scope), (f.scopes native)[p]? = some scope →
    scope.usage = usageOf (f.sources.filter fun s => s.participation = p) ∧
      scope.usage ≤ (recordLimitOf false, byteLimitOf false, positionLimitOf native false)
  attempt : f.attempt.scope.usage = usageOf f.sources ∧
    f.attempt.scope.usage ≤ (recordLimitOf true, byteLimitOf true, positionLimitOf native true)

structure FamilyState.Frozen (native : Bool) (f f' : FamilyState α) : Prop where
  scope : ∀ (p : Nat) (scope : Scope), (f.scopes native)[p]? = some scope →
    scope.summaryOnly = true → (f'.scopes native)[p]? = some scope
  attempt : f.attempt.summaryOnly = true → f'.attempt.scope = f.attempt.scope

theorem total_lanes (chosen : Lane → Bool) (sources : List (DeliverySource α)) :
    total chosen (sources.map lane) =
      usageOf (sources.filter (chosen ∘ lane)) := by
  simp only [total_eq, filter_map, map_map, usageOf, recordsOf, bytesOf,
    Function.comp_def, lane, entriesOf]

theorem FamilyState.Good.countersExact (hGood : f.Good native intervals)
    (hExact : (f.book native intervals).Exact) : f.CountersExact native where
  scope := fun p scope hScope => by
    refine ⟨(hExact.scope_usage p scope hScope).trans (total_lanes _ _), ?_⟩
    exact hGood.sound.scope_within scope (mem_of_getElem? hScope)
  attempt := by
    refine ⟨(hExact.whole_usage.trans (total_lanes _ _)).trans ?_, hGood.sound.whole_within⟩
    have hAll : f.sources.filter ((fun _ => true) ∘ DeliverySource.lane) = f.sources :=
      filter_eq_self.mpr fun _ _ => rfl
    rw [hAll]

theorem frozen_of_extends {i i' : Int}
    (hExtends : (f.book native i).Extends (f'.book native i')) : f.Frozen native f' where
  scope := fun p scope hScope hFrozen => by
    obtain ⟨scope', hScope', hSame⟩ := hExtends.scope p scope hScope
    rw [hSame hFrozen] at hScope'
    exact hScope'
  attempt := hExtends.whole

theorem Settles.single {reading : Reading α} {now : Instant} {g : FamilyState α} {j : Nat}
    {s : DeliverySource α} {state : DeliverySource α × BrowserSourceStatus} {rows : List (Row α)}
    {integrity : IntegrityLedger} {facts : Bool × Bool} (hEdited : Edited j f g)
    (h : Settles reading now g j f' s state rows integrity facts)
    (hSingle : ∀ v ∈ f.views, ∀ row ∈ v.rows, row.records = 1) : ∀ row ∈ rows, row.records = 1 := by
  have hBefore : ∀ row ∈ s.rows, row.records = 1 := by
    have hView : g.views[j]? = some s.view := by simp [FamilyState.views, h.source]
    obtain ⟨u, fresh, hOld, -, hRows, hFresh⟩ | ⟨-, hNone⟩ := hEdited.source s.view hView
    · intro row hRow
      obtain hRow | hRow := mem_append.mp (hRows.mem_iff.mp hRow)
      · exact hSingle u (mem_of_getElem? hOld) row hRow
      · exact (hFresh row hRow).2
    · intro row hRow
      exact absurd (hNone ▸ hRow : row ∈ ([] : List (Row α))) not_mem_nil
  intro row hRow
  have hEntry : row.toEntry ∈ (entriesOf s.rows).map
      (Entry.interpretThrough state.2.progress.settledThrough) :=
    h.entries ▸ mem_map_of_mem hRow
  obtain ⟨e, he, hSame⟩ := mem_map.mp hEntry
  obtain ⟨old, hOld, rfl⟩ := mem_map.mp he
  rw [← hSame]
  exact hBefore old hOld

theorem Reviews.single {reading : Reading α} (hRev : Reviews reading f f')
    (hSingle : ∀ v ∈ f.views, ∀ row ∈ v.rows, row.records = 1) :
    ∀ v ∈ f'.views, ∀ row ∈ v.rows, row.records = 1 := by
  induction hRev with
  | refl => exact hSingle
  | tail _ hLast ih =>
    cases hLast with
    | keep hKept => rwa [hKept.views]
    | settle hEdited hSet hSound =>
      intro v hv
      rw [hSet.views] at hv
      obtain ⟨i, hi⟩ := mem_iff_getElem?.mp hv
      rw [getElem?_set] at hi
      split at hi
      · split at hi
        · cases hi
          exact hSet.single hEdited ih
        · cases hi
      next hOther =>
        rw [hEdited.others i (Ne.symm hOther)] at hi
        exact ih v (mem_of_getElem? hi)

end Counters

section CounterRuns

variable {α β : Type}

/-- After every operation of a run the counters of both families are exact and within their
limits, and every stored event is one record of them. -/
structure Attempt.CountersExact (a : Attempt α β) : Prop where
  browser : a.browser.CountersExact false
  native : a.native.CountersExact true
  single : ∀ s ∈ a.browser.sources, ∀ row ∈ s.rows, row.records = 1

/-- What an operation leaves alone: the counters of a scope that stopped collecting, and all
counters when it fails or is refused. -/
structure DeliveryOp.Conserves (op : DeliveryOp α β) (browserReading : Reading α)
    (nativeReading : Reading β) (a : Attempt α β) : Prop where
  browser : a.browser.Frozen false (op.step browserReading nativeReading a).browser
  native : a.native.Frozen true (op.step browserReading nativeReading a).native
  refused : ∀ answer, op.execute browserReading nativeReading a = .ok answer →
    answer.2 ≠ .accepted → answer.1.usages = a.usages
  failed : ∀ fault, op.execute browserReading nativeReading a = .error fault →
    op.step browserReading nativeReading a = a

theorem after_countersExact (browserReading : Reading α) (nativeReading : Reading β)
    (start : Instant) (ops : List (DeliveryOp α β)) :
    (Attempt.after browserReading nativeReading start ops).CountersExact ∧
      (∀ op : DeliveryOp α β, op.Conserves browserReading nativeReading
        (Attempt.after browserReading nativeReading start ops)) ∧
      ∀ (p : Nat) (mark : DeliveryWatermark) (rest : List DeliveryWatermark) (applied : Attempt α β),
        (Attempt.after browserReading nativeReading start ops).Controls p (mark :: rest) →
        applyControlWatermark browserReading p
          (Attempt.after browserReading nativeReading start ops) mark = .ok (applied, true) →
        applied.usages = (Attempt.after browserReading nativeReading start ops).usages := by
  have hReach := Attempt.after_reaches browserReading nativeReading start ops
  have hExact := Attempt.after_exact browserReading nativeReading start ops
  have hSingle := Reviews.single hReach.reviews (by
    simp [FamilyState.views, Attempt.initial, FamilyState.empty])
  generalize Attempt.after browserReading nativeReading start ops = a at hReach hExact hSingle ⊢
  have hGood := hReach.good
  refine ⟨⟨hGood.browser.countersExact hExact.browser, hGood.native.countersExact hExact.native,
    fun s hs => hSingle s.view (mem_map_of_mem hs)⟩, fun op => ?_,
    fun p mark rest applied hControls hApply =>
      (applyControlWatermark_controlled hGood hControls hApply).2 rfl⟩
  have hStep : Reaches browserReading a (op.step browserReading nativeReading a) :=
    op.step_reaches hGood
  exact
    { browser := frozen_of_extends
        (Changes.extends_ hStep.browser hGood.browser.sound hExact.browser)
      native := frozen_of_extends (Changes.extends_ hStep.native hGood.native.sound hExact.native)
      refused := fun answer hExec hRefused => (op.execute_replies hGood hExec).quiet hRefused
      failed := fun fault hExec => by simp [DeliveryOp.step, hExec] }

end CounterRuns

end Proctor.Delivery
