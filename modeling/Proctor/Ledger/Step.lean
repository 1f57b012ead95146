import Proctor.Ledger.Lane

/-!
# The steps of a lane

Each step names the usage it charges and the number of gap ranges it adds.
-/

namespace Ledger

open Ranges

inductive Lane.Step (l : Lane) : Usage → Int → Lane → Prop
  /-- An open lane is closed at a bound that holds what it allocated. -/
  | close (bound : Int) (hOpen : l.boundary = none) (hBound : l.allocated ≤ bound) :
      Step l 0 0 { l with boundary := some bound }
  | terminate : Step l 0 0 { l with terminal := l.allocated }
  | finalise (final : Int) (hClosed : l.boundary.isSome) (hFinal : l.allocated ≤ final) :
      Step l (0, 0, final - l.allocated) 0
        { l with boundary := some final, allocated := final }
  | allocate (allocated : Int) (hOpen : l.boundary = none) (hAllocated : l.allocated ≤ allocated) :
      Step l (0, 0, allocated - l.allocated) 0 { l with allocated := allocated }
  | declare (ranges : List Range) (allocated : Int) (hAllocated : l.allocated ≤ allocated)
      (hBoundary : ∀ b, l.boundary = some b → allocated ≤ b) (hRanges : Separated ranges)
      (hWithin : ∀ r ∈ ranges, 1 ≤ r.first ∧ r.last ≤ allocated)
      (hReceived : ∀ n, Covers ranges n → ¬ l.Received n)
      (hGaps : ∀ r ∈ ranges, ∀ g ∈ l.gaps, r.Disjoint g) :
      Step l (0, 0, allocated - l.allocated) ranges.length
        { l with allocated := allocated, gaps := l.gaps ++ ranges }
  | settle (n : Int) (hFrontier : IsFrontier l.Covered n) :
      Step l 0 0 { l with settled := n, entries := l.entries.map (Entry.interpretThrough n) }
  /-- Fresh entries are retained and whatever they settle is interpreted. -/
  | retain (fresh entries : List Entry) (allocated n : Int)
      (hPerm : entries.Perm (fresh ++ l.entries))
      (hAscending : entries.Pairwise fun a b => a.sequence < b.sequence)
      (hFresh : ∀ e ∈ fresh, 1 ≤ e.sequence ∧ e.sequence ≤ allocated ∧ 0 ≤ e.bytes ∧
        ¬ l.Missing e.sequence)
      (hAllocated : l.allocated ≤ allocated)
      (hBoundary : ∀ b, l.boundary = some b → allocated ≤ b)
      (hFrontier : IsFrontier { l with allocated := allocated, entries := entries }.Covered n) :
      Step l (recordsOf fresh, bytesOf fresh, allocated - l.allocated) 0
        { l with
          allocated := allocated
          settled := n
          entries := entries.map (Entry.interpretThrough n) }

theorem received_interpretThrough {n : Int} {entries : List Entry} {k : Int} :
    (∃ e ∈ entries.map (Entry.interpretThrough n), e.sequence = k) ↔ ∃ e ∈ entries, e.sequence = k := by
  simp

theorem ascending_interpretThrough {n : Int} {entries : List Entry}
    (hAsc : entries.Pairwise fun a b => a.sequence < b.sequence) :
    (entries.map (Entry.interpretThrough n)).Pairwise fun a b => a.sequence < b.sequence :=
  List.pairwise_map.mpr hAsc

namespace Lane.Step

variable {l l' : Lane} {charge : Usage} {ranges : Int}

section

variable (hStep : l.Step charge ranges l')
include hStep

theorem usage : l'.usage = l.usage + charge := by
  cases hStep with
  | close | terminate | finalise | allocate | declare | settle n => simp [Lane.usage]
  | retain fresh entries allocated n hPerm =>
    have hRecs : recordsOf entries = recordsOf l.entries + recordsOf fresh := by
      rw [recordsOf, (hPerm.map _).sum_eq]
      simp [recordsOf, add_comm]
    have hBytes : bytesOf entries = bytesOf l.entries + bytesOf fresh := by
      rw [bytesOf, (hPerm.map _).sum_eq]
      simp [bytesOf, add_comm]
    simp [Lane.usage, hRecs, hBytes]

theorem gaps_length : (l'.gaps.length : Int) = l.gaps.length + ranges := by
  cases hStep <;> simp

theorem boundary_isSome (hClosed : l.boundary.isSome) : l'.boundary.isSome := by
  cases hStep <;> simp_all

theorem received (n : Int) (hRecv : l.Received n) : l'.Received n := by
  cases hStep with
  | settle m => exact received_interpretThrough.mpr hRecv
  | retain fresh entries allocated m hPerm =>
    obtain ⟨e, he, rfl⟩ := hRecv
    exact received_interpretThrough.mpr ⟨e, hPerm.mem_iff.mpr (by simp [he]), rfl⟩
  | _ => exact hRecv

theorem missing (n : Int) (hMiss : l.Missing n) : l'.Missing n := by
  cases hStep with
  | declare => exact covers_append.mpr (Or.inl hMiss)
  | _ => exact hMiss

theorem terminal_le (hSound : l.Sound) : l.terminal ≤ l'.terminal := by
  cases hStep with
  | terminate => exact hSound.terminal_le
  | _ => exact le_rfl

theorem allocated_le : l.allocated ≤ l'.allocated := by
  cases hStep <;> first | assumption | exact le_rfl

theorem scope_eq : l'.scope = l.scope := by
  cases hStep <;> rfl

theorem covered (hSound : l.Sound) (n : Int) (hCovered : l.Covered n) : l'.Covered n := by
  obtain hRecv | hMiss | ⟨hLow, hHigh⟩ := hCovered
  · exact Or.inl (hStep.received n hRecv)
  · exact Or.inr (Or.inl (hStep.missing n hMiss))
  · exact Or.inr (Or.inr ⟨hLow, hHigh.trans (hStep.terminal_le hSound)⟩)

theorem settled_le (hTrack : l.Tracked) : l.settled ≤ l'.settled := by
  cases hStep with
  | settle n hFront => exact hFront.le_of_below hTrack.covered
  | retain fresh entries allocated n hPerm hAsc hFresh hAlloc hBdry hFront =>
    refine hFront.le_of_below fun k hLow hHigh => ?_
    obtain ⟨e, he, rfl⟩ | hOther := hTrack.covered k hLow hHigh
    · exact Or.inl ⟨e, hPerm.mem_iff.mpr (by simp [he]), rfl⟩
    · exact Or.inr hOther
  | _ => exact le_rfl

theorem tracked (hSound : l.Sound) (hTrack : l.Tracked) : l'.Tracked := by
  have hKept : ∀ k, 1 ≤ k → k ≤ l.settled → l'.Covered k :=
    fun k hLow hHigh => hStep.covered hSound k (hTrack.covered k hLow hHigh)
  cases hStep with
  | settle n hFront
  | retain fresh entries allocated n hPerm hAsc hFresh hAlloc hBdry hFront =>
    exact ⟨hFront.nonneg, fun k hLow hHigh => (hFront.below k hLow hHigh).imp
      (fun hRecv => received_interpretThrough.mpr hRecv) id⟩
  | _ => exact ⟨hTrack.nonneg, hKept⟩

theorem extends_ (hSound : l.Sound) (hTrack : l.Tracked) : l.Extends l' where
  scope := hStep.scope_eq
  allocated := hStep.allocated_le
  terminal := hStep.terminal_le hSound
  settled := hStep.settled_le hTrack
  received := hStep.received
  missing := hStep.missing
  closed := hStep.boundary_isSome

end

end Lane.Step

/-! ## Soundness is kept -/

namespace Lane.Sound

variable {l : Lane}

theorem rebound (h : l.Sound) {allocated terminal : Int} {boundary : Option Int}
    (hAlloc : l.allocated ≤ allocated) (hTerm : l.terminal ≤ terminal)
    (hTerminalLe : terminal ≤ allocated) (hBdry : ∀ b, boundary = some b → allocated ≤ b) :
    Sound { l with allocated := allocated, terminal := terminal, boundary := boundary } where
  ascending := h.ascending
  received_within := fun e he => ⟨(h.received_within e he).1,
    (h.received_within e he).2.trans hAlloc⟩
  bytes_nonneg := h.bytes_nonneg
  gaps_proper := h.gaps_proper
  gaps_within := fun g hg => ⟨(h.gaps_within g hg).1, (h.gaps_within g hg).2.trans hAlloc⟩
  gaps_disjoint := h.gaps_disjoint
  disjoint := h.disjoint
  terminal_nonneg := h.terminal_nonneg.trans hTerm
  terminal_le := hTerminalLe
  bounded := hBdry

theorem settle (h : l.Sound) (n : Int) :
    Sound { l with settled := n, entries := l.entries.map (Entry.interpretThrough n) } where
  ascending := ascending_interpretThrough h.ascending
  received_within := by simpa using h.received_within
  bytes_nonneg := by simpa using h.bytes_nonneg
  gaps_proper := h.gaps_proper
  gaps_within := h.gaps_within
  gaps_disjoint := h.gaps_disjoint
  disjoint := fun k hRecv => h.disjoint k (received_interpretThrough.mp hRecv)
  terminal_nonneg := h.terminal_nonneg
  terminal_le := h.terminal_le
  bounded := h.bounded

theorem insert (h : l.Sound) {fresh entries : List Entry} {allocated : Int}
    (hPerm : entries.Perm (fresh ++ l.entries))
    (hAsc : entries.Pairwise fun a b => a.sequence < b.sequence)
    (hFresh : ∀ e ∈ fresh, 1 ≤ e.sequence ∧ e.sequence ≤ allocated ∧ 0 ≤ e.bytes ∧
      ¬ l.Missing e.sequence)
    (hAlloc : l.allocated ≤ allocated) (hBdry : ∀ b, l.boundary = some b → allocated ≤ b) :
    Sound { l with allocated := allocated, entries := entries } where
  ascending := hAsc
  received_within := fun e he => by
    obtain he | he := List.mem_append.mp (hPerm.mem_iff.mp he)
    · exact ⟨(hFresh e he).1, (hFresh e he).2.1⟩
    · exact ⟨(h.received_within e he).1, (h.received_within e he).2.trans hAlloc⟩
  bytes_nonneg := fun e he => by
    obtain he | he := List.mem_append.mp (hPerm.mem_iff.mp he)
    · exact (hFresh e he).2.2.1
    · exact h.bytes_nonneg e he
  gaps_proper := h.gaps_proper
  gaps_within := fun g hg => ⟨(h.gaps_within g hg).1, (h.gaps_within g hg).2.trans hAlloc⟩
  gaps_disjoint := h.gaps_disjoint
  disjoint := by
    rintro n ⟨e, he, rfl⟩
    obtain he | he := List.mem_append.mp (hPerm.mem_iff.mp he)
    · exact (hFresh e he).2.2.2
    · exact h.disjoint _ ⟨e, he, rfl⟩
  terminal_nonneg := h.terminal_nonneg
  terminal_le := h.terminal_le.trans hAlloc
  bounded := hBdry

theorem declare (h : l.Sound) {ranges : List Range} {allocated : Int}
    (hAlloc : l.allocated ≤ allocated) (hBdry : ∀ b, l.boundary = some b → allocated ≤ b)
    (hRanges : Separated ranges) (hWithin : ∀ r ∈ ranges, 1 ≤ r.first ∧ r.last ≤ allocated)
    (hRecv : ∀ n, Covers ranges n → ¬ l.Received n)
    (hGaps : ∀ r ∈ ranges, ∀ g ∈ l.gaps, r.Disjoint g) :
    Sound { l with allocated := allocated, gaps := l.gaps ++ ranges } where
  ascending := h.ascending
  received_within := fun e he => ⟨(h.received_within e he).1,
    (h.received_within e he).2.trans hAlloc⟩
  bytes_nonneg := h.bytes_nonneg
  gaps_proper := List.forall_mem_append.mpr ⟨h.gaps_proper, hRanges.proper⟩
  gaps_within := List.forall_mem_append.mpr ⟨fun g hg => ⟨(h.gaps_within g hg).1,
    (h.gaps_within g hg).2.trans hAlloc⟩, hWithin⟩
  gaps_disjoint := List.pairwise_append.mpr ⟨h.gaps_disjoint,
    hRanges.ordered.ascending.imp fun {a b} hBefore => Or.inl hBefore,
    fun g hg r hr => (hGaps r hr g hg).symm⟩
  disjoint := fun n hn => by
    intro hMiss
    obtain hOld | hNew := covers_append.mp hMiss
    · exact h.disjoint n hn hOld
    · exact hRecv n hNew hn
  terminal_nonneg := h.terminal_nonneg
  terminal_le := h.terminal_le.trans hAlloc
  bounded := hBdry

end Lane.Sound

theorem Lane.Step.sound {l l' : Lane} {charge : Usage} {ranges : Int}
    (hStep : l.Step charge ranges l') (h : l.Sound) : l'.Sound := by
  cases hStep with
  | close bound hOpen hBound =>
    refine h.rebound le_rfl le_rfl h.terminal_le fun b hb => ?_
    cases hb
    exact hBound
  | terminate => exact h.rebound le_rfl h.terminal_le le_rfl h.bounded
  | finalise final hClosed hFinal =>
    refine h.rebound hFinal le_rfl (h.terminal_le.trans hFinal) fun b hb => ?_
    cases hb
    exact le_rfl
  | allocate allocated hOpen hAlloc =>
    exact h.rebound hAlloc le_rfl (h.terminal_le.trans hAlloc) (by simp [hOpen])
  | declare ranges allocated hAlloc hBdry hRanges hWithin hRecv hGaps =>
    exact h.declare hAlloc hBdry hRanges hWithin hRecv hGaps
  | settle n hFront => exact h.settle n
  | retain fresh entries allocated n hPerm hAsc hFresh hAlloc hBdry hFront =>
    exact (h.insert hPerm hAsc hFresh hAlloc hBdry).settle n

end Ledger
