import Proctor.Delivery.Operations
import Proctor.Delivery.Progress

/-!
# Sources as lanes

A source is abstracted to the lane of its positions, a family to a book of lanes.
Lanes that are sound are exactly what the resolution of progress needs, and what
it resolves is the frontier of the covered positions.
-/

namespace Proctor.Delivery

open Ranges Ledger Fallible List DeliverySource

/-! ## Rows -/

section Rows

variable {α : Type}

def entriesOf (rows : List (Row α)) : List Entry :=
  rows.map Row.toEntry

@[simp]
theorem entriesOf_nil : entriesOf ([] : List (Row α)) = [] := rfl

theorem insertRow_perm (row : Row α) (rows : List (Row α)) :
    (insertRow row rows).Perm (row :: rows) := by
  induction rows with
  | nil => exact List.Perm.refl _
  | cons head rest ih =>
    simp only [insertRow]
    split
    · exact List.Perm.refl _
    · exact (ih.cons head).trans (List.Perm.swap row head rest)

theorem insertRow_ascending {row : Row α} {rows : List (Row α)}
    (hRows : rows.Pairwise fun a b => a.sequence < b.sequence)
    (hFresh : ∀ r ∈ rows, r.sequence ≠ row.sequence) :
    (insertRow row rows).Pairwise fun a b => a.sequence < b.sequence := by
  induction rows with
  | nil => simp [insertRow]
  | cons head rest ih =>
    have hHead := pairwise_cons.mp hRows
    have hDist := hFresh head (by simp)
    simp only [insertRow]
    split
    next hBefore =>
      have hLess : row.sequence < head.sequence := by omega
      refine pairwise_cons.mpr ⟨fun r hr => ?_, hRows⟩
      obtain rfl | hr := mem_cons.mp hr
      · exact hLess
      · exact hLess.trans (hHead.1 r hr)
    next hAfter =>
      refine pairwise_cons.mpr ⟨fun r hr => ?_,
        ih hHead.2 fun r hr => hFresh r (mem_cons_of_mem _ hr)⟩
      obtain rfl | hr := mem_cons.mp ((insertRow_perm row rest).mem_iff.mp hr)
      · omega
      · exact hHead.1 r hr

theorem advanceRows_entries {reading : Reading α} {through : Int} {missingBefore : Int → Bool}
    {before rows rows' : List (Row α)}
    (hAdv : advanceRows reading through missingBefore before rows = .ok rows') :
    entriesOf rows' = entriesOf before ++ (entriesOf rows).map (Entry.interpretThrough through) := by
  induction rows generalizing before with
  | nil =>
    cases hAdv
    simp
  | cons row rest ih =>
    simp only [advanceRows] at hAdv
    split at hAdv
    next hDue =>
      obtain ⟨payload, -, hRest⟩ := bind_ok hAdv
      rw [ih hRest]
      simp_all [entriesOf, Entry.interpretThrough]
    next hKeep =>
      have hSame : row.toEntry.interpretThrough through = row.toEntry := by
        obtain ⟨⟨sequence, records, bytes, interpreted⟩, digest, payload⟩ := row
        cases interpreted <;> simp_all [Entry.interpretThrough]
      rw [ih hAdv]
      simp [entriesOf, hSame]

end Rows

/-! ## Lanes -/

section Lanes

variable {α : Type}

def DeliverySource.boundary (s : DeliverySource α) : Option Int :=
  if s.isClosed then some s.closure.boundary else none

def DeliverySource.lane (s : DeliverySource α) : Lane where
  scope := s.participation
  allocated := s.allocated
  terminal := s.terminal
  settled := s.settled
  boundary := s.boundary
  entries := entriesOf s.rows
  gaps := s.declaredRanges

theorem DeliverySource.lane_start (p : Nat) (startedAt : Instant) :
    (start p startedAt : DeliverySource α).lane = Lane.fresh p := rfl

variable {s : DeliverySource α}

section

variable (hSound : s.lane.Sound)
include hSound

theorem rows_ascending : s.rows.Pairwise fun a b => a.sequence < b.sequence := by
  have hAsc : (s.rows.map Row.toEntry).Pairwise fun a b => a.sequence < b.sequence :=
    hSound.ascending
  rwa [pairwise_map] at hAsc

theorem ordered_rows : Ordered (s.rows.map fun row => (⟨row.sequence, row.sequence⟩ : Range)) where
  proper := by simp
  ascending := pairwise_map.mpr (rows_ascending hSound)

theorem ordered_declaredRanges : Ordered (sortByFirst s.declaredRanges) :=
  sortByFirst_ordered hSound.gaps_proper hSound.gaps_disjoint

theorem covers_received (n : Int) : Covers s.received n ↔ s.lane.Received n := by
  rw [received, covers_coalesce (ordered_rows hSound)]
  simp only [Covers, Range.Holds, Lane.Received, lane, entriesOf, mem_map,
    exists_exists_and_eq_and]
  refine exists_congr fun row => and_congr_right fun _ => ?_
  omega

theorem covers_gaps (n : Int) : Covers s.gaps n ↔ s.lane.Missing n := by
  rw [gaps, mergeNativeDeliveryRanges,
    covers_coalesce (ordered_declaredRanges hSound)]
  exact covers_congr_of_perm (sortByFirst_perm _) n

theorem settled_iff_covered (n : Int) : Settled s.received s.gaps s.terminal n ↔ s.lane.Covered n := by
  rw [Settled, covers_received hSound, covers_gaps hSound]
  rfl

theorem settled_eq_covered : Settled s.received s.gaps s.terminal = s.lane.Covered :=
  funext fun n => propext (settled_iff_covered hSound n)

theorem frontier_of_resolve {allocated : Int} {p : DeliveryProgress}
    (hRes : resolveDeliveryProgress allocated s.received s.gaps s.terminal = .ok p) :
    IsFrontier s.lane.Covered p.settledThrough := by
  have hSet := (resolveDeliveryProgress_spec hRes).2.settled
  rwa [settled_eq_covered hSound] at hSet

end

theorem within_of_covers {rs : List Range} (hSep : Separated rs) {low high : Int}
    (hCovers : ∀ n, Covers rs n → low ≤ n ∧ n ≤ high) : ∀ r ∈ rs, low ≤ r.first ∧ r.last ≤ high := by
  intro r hr
  have hProper := hSep.proper r hr
  exact ⟨(hCovers r.first ⟨r, hr, le_rfl, hProper⟩).1, (hCovers r.last ⟨r, hr, hProper, le_rfl⟩).2⟩

theorem placed_of_sound (hSound : s.lane.Sound) (hAlloc : s.allocated ≤ browserAttemptPositionLimit)
    (hGaps : (s.declaredRanges.length : Int) ≤ deliveryMissingIntervalLimit) :
    Placed s.allocated s.received s.gaps s.terminal := by
  have hRecv := coalesce_separated (ordered_rows hSound)
  have hMiss := coalesce_separated (ordered_declaredRanges hSound)
  have hCount := coalesce_length_le (s.rows.map fun row => (⟨row.sequence, row.sequence⟩ : Range))
  have hGapCount := coalesce_length_le (sortByFirst s.declaredRanges)
  have hRows : (s.rows.length : Int) ≤ s.allocated := by
    simpa [lane, entriesOf] using hSound.entries_length_le
  simp only [browserAttemptPositionLimit, deliveryMissingIntervalLimit] at hAlloc hGaps
  rw [length_map] at hCount
  rw [sortByFirst_length] at hGapCount
  exact
    { received_separated := hRecv
      missing_separated := hMiss
      received_count := by
        simp only [received, browserAttemptPositionLimit]
        omega
      missing_count := by
        simp only [gaps, mergeNativeDeliveryRanges, deliveryMissingIntervalLimit]
        omega
      received_within := within_of_covers hRecv fun n hn => by
        obtain ⟨e, he, rfl⟩ := (covers_received hSound n).mp hn
        exact hSound.received_within e he
      missing_within := within_of_covers hMiss fun n hn => by
        obtain ⟨g, hg, hLow, hHigh⟩ := (covers_gaps hSound n).mp hn
        have hWithin := hSound.gaps_within g hg
        exact ⟨hWithin.1.trans hLow, hHigh.trans hWithin.2⟩
      disjoint := fun n hn hMissed =>
        hSound.disjoint n ((covers_received hSound n).mp hn) ((covers_gaps hSound n).mp hMissed)
      terminal_nonneg := hSound.terminal_nonneg
      terminal_le := hSound.terminal_le
      allocated_safe := by omega }

end Lanes

end Proctor.Delivery
