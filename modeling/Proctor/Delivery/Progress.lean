import Proctor.Delivery.Lifecycle
import Proctor.Fallible.Basic

/-!
# What delivery progress means

`resolveDeliveryProgress` accepts exactly the ranges that place every position
once within the allocation. The settled position it reports is the frontier of
the positions that were received, declared missing or settled by the terminal
bound, and the contiguous position is the frontier of those received.
-/

namespace Proctor.Delivery

open Ranges Fallible List

theorem securitySafeInt_iff (value : Int) :
    securitySafeInt value ↔ 0 ≤ value ∧ value ≤ 9007199254740991 := by
  simp [securitySafeInt]

theorem increasingRanges_iff (previous : Int) (ranges : List SequenceRange) :
    increasingRanges previous ranges ↔ Separated ranges ∧
      ∀ r ∈ ranges, 1 ≤ r.first ∧ r.last ≤ 9007199254740991 ∧ previous + 1 < r.first := by
  induction ranges generalizing previous with
  | nil =>
    refine ⟨fun _ => ⟨⟨by simp, by simp⟩, by simp⟩, fun _ => rfl⟩
  | cons r rest ih =>
    simp only [increasingRanges, Bool.and_eq_true, Bool.not_eq_true', decide_eq_false_iff_not,
      securitySafeInt_iff, ih]
    constructor
    · rintro ⟨⟨⟨⟨hFirst, hSafe⟩, hProper⟩, hPrev⟩, hSep, hRest⟩
      refine ⟨⟨?_, pairwise_cons.mpr ⟨?_, hSep.apart⟩⟩, ?_⟩
      · exact forall_mem_cons.mpr ⟨by omega, hSep.proper⟩
      · intro s hs
        have := (hRest s hs).2.2
        simp only [Range.Apart]
        omega
      · refine forall_mem_cons.mpr ⟨⟨by omega, hSafe.2, by omega⟩, fun s hs => ?_⟩
        obtain ⟨hLow, hHigh, hAfter⟩ := hRest s hs
        exact ⟨hLow, hHigh, by omega⟩
    · rintro ⟨hSep, hAll⟩
      have hProper := hSep.proper r (by simp)
      obtain ⟨hFirst, hSafe, hPrev⟩ := hAll r (by simp)
      refine ⟨⟨⟨⟨by omega, by omega, hSafe⟩, by omega⟩, by omega⟩, hSep.tail, fun s hs => ?_⟩
      obtain ⟨hLow, hHigh, -⟩ := hAll s (mem_cons_of_mem r hs)
      exact ⟨hLow, hHigh, (pairwise_cons.mp hSep.apart).1 s hs⟩

theorem validateSequenceRanges_iff (ranges : List SequenceRange) (maximum : Nat) :
    validateSequenceRanges ranges maximum ↔ ranges.length ≤ maximum ∧ Separated ranges ∧
      ∀ r ∈ ranges, 1 ≤ r.first ∧ r.last ≤ 9007199254740991 := by
  simp only [validateSequenceRanges, Bool.and_eq_true, decide_eq_true_eq, increasingRanges_iff]
  refine and_congr_right fun _ => and_congr_right fun _ => forall₂_congr fun r _ => ?_
  omega

theorem beyond_eq_false_iff {ranges : List SequenceRange} (hOrd : Ordered ranges)
    (allocated : Int) : beyond ranges allocated = false ↔ ∀ r ∈ ranges, r.last ≤ allocated := by
  induction ranges with
  | nil => simp [beyond]
  | cons r rest ih =>
    cases rest with
    | nil => simp [beyond]
    | cons s rest =>
      have hTail := ih hOrd.tail
      have hSame : beyond (r :: s :: rest) allocated = beyond (s :: rest) allocated := by
        simp [beyond]
      rw [hSame, hTail]
      refine ⟨fun hAll => forall_mem_cons.mpr ⟨?_, hAll⟩, fun hAll => ?_⟩
      · have hBefore : r.last < s.first :=
          (pairwise_cons.mp hOrd.ascending).1 s (by simp)
        have hProper := hOrd.proper s (by simp)
        have := hAll s (by simp)
        omega
      · exact fun t ht => hAll t (mem_cons_of_mem r ht)

structure Placed (allocated : Int) (received missing : List SequenceRange)
    (terminalThrough : Int) : Prop where
  received_separated : Separated received
  missing_separated : Separated missing
  received_count : received.length ≤ browserAttemptPositionLimit.toNat
  missing_count : missing.length ≤ deliveryMissingIntervalLimit.toNat
  received_within : ∀ r ∈ received, 1 ≤ r.first ∧ r.last ≤ allocated
  missing_within : ∀ r ∈ missing, 1 ≤ r.first ∧ r.last ≤ allocated
  disjoint : ∀ n, Covers received n → ¬ Covers missing n
  terminal_nonneg : 0 ≤ terminalThrough
  terminal_le : terminalThrough ≤ allocated
  allocated_safe : allocated ≤ 9007199254740991

theorem placed_iff (allocated : Int) (received missing : List SequenceRange) (terminalThrough : Int) :
    Placed allocated received missing terminalThrough ↔
      (securitySafeInt allocated ∧ securitySafeInt terminalThrough ∧
        terminalThrough ≤ allocated ∧
        validateSequenceRanges received browserAttemptPositionLimit.toNat ∧
        validateSequenceRanges missing deliveryMissingIntervalLimit.toNat = true) ∧
      (beyond received allocated = false ∧ beyond missing allocated = false) ∧
      meets received missing = false := by
  simp only [securitySafeInt_iff, validateSequenceRanges_iff]
  constructor
  · intro h
    have hMeets : ¬ meets received missing := by
      rw [meets_iff h.received_separated.ordered h.missing_separated.ordered]
      rintro ⟨n, hRecv, hMiss⟩
      exact h.disjoint n hRecv hMiss
    have hSafe := h.allocated_safe
    have hLow := h.terminal_nonneg
    have hHigh := h.terminal_le
    refine ⟨⟨⟨by omega, hSafe⟩, ⟨hLow, by omega⟩, hHigh,
      ⟨h.received_count, h.received_separated, fun r hr => ?_⟩,
      ⟨h.missing_count, h.missing_separated, fun r hr => ?_⟩⟩,
      ⟨(beyond_eq_false_iff h.received_separated.ordered _).mpr
        fun r hr => (h.received_within r hr).2,
      (beyond_eq_false_iff h.missing_separated.ordered _).mpr
        fun r hr => (h.missing_within r hr).2⟩, by simpa using hMeets⟩
    · obtain ⟨hFirst, hLast⟩ := h.received_within r hr
      exact ⟨hFirst, by omega⟩
    · obtain ⟨hFirst, hLast⟩ := h.missing_within r hr
      exact ⟨hFirst, by omega⟩
  · rintro ⟨⟨hAlloc, hTerm, hLe, ⟨hReceivedCount, hRecv, hReceivedFirst⟩,
      hMissingCount, hMiss, hMissingFirst⟩, ⟨hReceivedLast, hMissingLast⟩, hMeets⟩
    rw [beyond_eq_false_iff hRecv.ordered] at hReceivedLast
    rw [beyond_eq_false_iff hMiss.ordered] at hMissingLast
    refine ⟨hRecv, hMiss, hReceivedCount, hMissingCount,
      fun r hr => ⟨(hReceivedFirst r hr).1, hReceivedLast r hr⟩,
      fun r hr => ⟨(hMissingFirst r hr).1, hMissingLast r hr⟩, ?_, hTerm.1, hLe, hAlloc.2⟩
    intro n hLeft hRight
    have := (meets_iff hRecv.ordered hMiss.ordered).mpr ⟨n, hLeft, hRight⟩
    simp [hMeets] at this

/-! ## The scan -/

variable {s : ProgressScan}

section

variable (rs : List SequenceRange)
include rs

theorem ProgressScan.foldl_settled_of_hole
    (hHole : s.missing ≠ []) : (rs.foldl ProgressScan.step s).settled = s.settled := by
  induction rs generalizing s with
  | nil => rfl
  | cons r rest ih =>
    have hKept : (s.step r).missing ≠ [] ∧ (s.step r).settled = s.settled := by
      simp only [ProgressScan.step, ProgressScan.report]
      split_ifs <;> simp_all
    rw [foldl_cons, ih hKept.1, hKept.2]

theorem ProgressScan.foldl_settled
    (hMiss : s.missing = []) (hTruncated : s.truncated = false) (hSet : s.settled = s.through) :
    (rs.foldl ProgressScan.step s).settled = reachFrom s.through rs := by
  induction rs generalizing s with
  | nil => simpa [reachFrom] using hSet
  | cons r rest ih =>
    rw [foldl_cons, reachFrom]
    split
    next hGap =>
      have hHole : (s.step r).missing ≠ [] ∧ (s.step r).settled = s.settled := by
        simp [ProgressScan.step, ProgressScan.report, hMiss, hGap]
      rw [foldl_settled_of_hole rest hHole.1, hHole.2, hSet]
    next hReach =>
      have hStep : s.step r = ⟨max s.through r.last, max s.through r.last, [], false⟩ := by
        obtain ⟨through, settled, missing, truncated⟩ := s
        simp only at hMiss hTruncated hSet
        subst hMiss hTruncated hSet
        simp only [ProgressScan.step, isEmpty_nil, Bool.not_false, Bool.and_self,
          Bool.true_and, decide_eq_true_eq]
        rw [if_neg hReach]
        split_ifs with hGrow
        · simp only [ProgressScan.mk.injEq, and_true, true_and]
          omega
        · simp only [ProgressScan.mk.injEq, and_true, true_and]
          omega
      rw [hStep, ih rfl rfl rfl]

theorem ProgressScan.start_settled :
    (rs.foldl ProgressScan.step ProgressScan.start).settled = reachFrom 0 rs :=
  foldl_settled rs rfl rfl rfl

end

/-- A scan that goes on from `s` to `last` and meets the holes on the way reports the first 32. -/
structure ProgressScan.Reports (s : ProgressScan) (holes : List SequenceRange) (last : ProgressScan) : Prop where
  missing : last.missing = (s.missing ++ holes).take 32
  truncated : last.truncated = (s.truncated || decide (32 < s.missing.length + holes.length))

section

variable (hLen : s.missing.length ≤ 32)
include hLen

theorem ProgressScan.Reports.nil : s.Reports [] s where
  missing := by rw [append_nil, take_of_length_le hLen]
  truncated := by simp; omega

theorem ProgressScan.report_length (hole : SequenceRange) :
    (s.report hole).missing.length ≤ 32 := by
  unfold report
  split
  · rw [length_append, length_singleton]
    omega
  · exact hLen

theorem ProgressScan.Reports.cons {next last : ProgressScan} {hole : SequenceRange}
    {holes : List SequenceRange} (hMiss : next.missing = (s.report hole).missing)
    (hTruncated : next.truncated = (s.report hole).truncated) (h : next.Reports holes last) :
    s.Reports (hole :: holes) last := by
  obtain ⟨hList, hFlag⟩ := h
  rw [hMiss] at hList hFlag
  rw [hTruncated] at hFlag
  unfold report at hList hFlag
  split at hList
  next hRoom =>
    rw [if_pos hRoom, length_append, add_right_comm] at hFlag
    exact ⟨by rw [hList, append_assoc]; rfl, hFlag⟩
  next hFull =>
    have hExact : s.missing.length = 32 := by omega
    refine ⟨?_, by rw [hFlag, hExact]; simp⟩
    rw [hList, take_append, take_append, hExact]
    rfl

end

theorem ProgressScan.foldl_reports (rs : List SequenceRange) (allocated : Int)
    (hLen : s.missing.length ≤ 32) :
    s.Reports (holesFrom s.through allocated rs)
      (let scanned := rs.foldl ProgressScan.step s
      if scanned.through < allocated then scanned.report ⟨scanned.through + 1, allocated⟩ else scanned) := by
  induction rs generalizing s with
  | nil =>
    change s.Reports _ (if s.through < allocated then s.report ⟨s.through + 1, allocated⟩ else s)
    unfold holesFrom
    split
    · exact .cons hLen rfl rfl (.nil (report_length hLen _))
    · exact .nil hLen
  | cons r rest ih =>
    simp only [holesFrom, foldl_cons]
    split
    next hGap =>
      have hMiss : (s.step r).missing = (s.report ⟨s.through + 1, r.first - 1⟩).missing := by
        simp only [step, gt_iff_lt, if_pos hGap]
      have hTruncated : (s.step r).truncated = (s.report ⟨s.through + 1, r.first - 1⟩).truncated := by
        simp only [step, gt_iff_lt, if_pos hGap]
      exact .cons hLen hMiss hTruncated (ih (hMiss ▸ report_length hLen _))
    next hReach =>
      have hMiss : (s.step r).missing = s.missing ∧ (s.step r).truncated = s.truncated := by
        simp only [step, gt_iff_lt, if_neg hReach]
        split <;> exact ⟨rfl, rfl⟩
      obtain ⟨hList, hFlag⟩ := ih (hMiss.1 ▸ hLen)
      rw [hMiss.1] at hList hFlag
      rw [hMiss.2] at hFlag
      exact ⟨hList, hFlag⟩

/-- Positions that need nothing more: received, declared missing, or below the
terminal bound. -/
def Settled (received missing : List SequenceRange) (terminalThrough : Int) (n : Int) : Prop :=
  Covers received n ∨ Covers missing n ∨ (1 ≤ n ∧ n ≤ terminalThrough)

theorem covers_terminalRange (terminalThrough n : Int) :
    Covers (terminalRange terminalThrough) n ↔ 1 ≤ n ∧ n ≤ terminalThrough := by
  simp only [terminalRange]
  split
  · simp [Range.Holds]
  · simp only [covers_nil, false_iff]
    omega

theorem isFrontier_highestContiguous {received : List SequenceRange}
    (hSep : Separated received) (hFirst : ∀ r ∈ received, 1 ≤ r.first) :
    IsFrontier (Covers received) (highestContiguous received) := by
  cases received with
  | nil => exact ⟨le_rfl, fun k hLow hHigh => by simp [highestContiguous] at hHigh; omega,
      by simp⟩
  | cons r rest =>
    have hProper := hSep.proper r (by simp)
    have hLow := hFirst r (by simp)
    have hLater : ∀ n, Covers rest n → r.last + 1 < n := by
      rintro n ⟨s, hs, hHolds⟩
      have hApart : r.last + 1 < s.first := (pairwise_cons.mp hSep.apart).1 s hs
      exact lt_of_lt_of_le hApart hHolds.1
    simp only [highestContiguous, head?_cons]
    split
    next hOne =>
      refine ⟨by omega, fun k hk hHigh => covers_cons.mpr (Or.inl ⟨by omega, hHigh⟩), ?_⟩
      rintro hNext
      obtain hHolds | hRest := covers_cons.mp hNext
      · have := hHolds.2
        omega
      · have := hLater _ hRest
        omega
    next hNotOne =>
      refine ⟨le_rfl, fun k hk hHigh => by omega, ?_⟩
      rintro hNext
      obtain hHolds | hRest := covers_cons.mp hNext
      · have := hHolds.1
        omega
      · have := hLater _ hRest
        omega

structure Resolves (received missing : List SequenceRange) (terminalThrough : Int)
    (p : DeliveryProgress) : Prop where
  settled : IsFrontier (Settled received missing terminalThrough) p.settledThrough
  contiguous : IsFrontier (Covers received) p.highestContiguous

variable {allocated : Int} {received missing : List SequenceRange} {terminalThrough : Int}
  {p : DeliveryProgress}

theorem Resolves.contiguous_le (h : Resolves received missing terminalThrough p) :
    p.highestContiguous ≤ p.settledThrough :=
  h.contiguous.mono h.settled fun _ hCovers => Or.inl hCovers

theorem Resolves.windowBase (h : Resolves received missing terminalThrough p) :
    p.windowBase = p.settledThrough :=
  max_eq_right h.contiguous_le

theorem Placed.sorted (hPlaced : Placed allocated received missing terminalThrough) :
    ∀ r ∈ sortByFirst (received ++ missing ++ terminalRange terminalThrough),
      1 ≤ r.first ∧ r.first ≤ r.last ∧ r.last ≤ allocated := by
  intro r hr
  have hr := (sortByFirst_perm _).mem_iff.mp hr
  simp only [mem_append, terminalRange] at hr
  obtain (hr | hr) | hr := hr
  · obtain ⟨hFirst, hLast⟩ := hPlaced.received_within r hr
    exact ⟨hFirst, hPlaced.received_separated.proper r hr, hLast⟩
  · obtain ⟨hFirst, hLast⟩ := hPlaced.missing_within r hr
    exact ⟨hFirst, hPlaced.missing_separated.proper r hr, hLast⟩
  · split at hr
    next hTerm =>
      obtain rfl := mem_singleton.mp hr
      exact ⟨le_rfl, by simp only; omega, hPlaced.terminal_le⟩
    · cases hr

theorem covers_sorted (n : Int) :
    Covers (sortByFirst (received ++ missing ++ terminalRange terminalThrough)) n ↔
      Settled received missing terminalThrough n := by
  rw [covers_congr_of_perm (sortByFirst_perm _), covers_append, covers_append, covers_terminalRange,
    Settled, or_assoc]

theorem resolveDeliveryProgress_placed
    (hRes : resolveDeliveryProgress allocated received missing terminalThrough = .ok p) :
    Placed allocated received missing terminalThrough := by
  obtain ⟨hValid, hRes⟩ := guard_ok hRes
  obtain ⟨hWithin, hRes⟩ := guard_ok hRes
  obtain ⟨hMeets, -⟩ := guard_ok hRes
  rw [placed_iff]
  simp only [Bool.or_eq_true, Bool.not_eq_true', decide_eq_true_eq, not_or,
    Bool.not_eq_false, Bool.not_eq_true, not_lt, gt_iff_lt] at hValid hWithin hMeets
  obtain ⟨⟨⟨⟨h₁, h₂⟩, h₃⟩, h₄⟩, h₅⟩ := hValid
  exact ⟨⟨h₁, h₂, h₃, h₄, h₅⟩, hWithin, hMeets⟩

theorem resolveDeliveryProgress_eq_ok (hPlaced : Placed allocated received missing terminalThrough) :
    ∃ p, resolveDeliveryProgress allocated received missing terminalThrough = .ok p := by
  obtain ⟨⟨h₁, h₂, h₃, h₄, h₅⟩, ⟨h₆, h₇⟩, h₈⟩ := (placed_iff _ _ _ _).mp hPlaced
  have hLe : ¬ terminalThrough > allocated := by omega
  simp [resolveDeliveryProgress, h₁, h₂, hLe, h₄, h₅, h₆, h₇, h₈]

theorem resolveDeliveryProgress_spec
    (hRes : resolveDeliveryProgress allocated received missing terminalThrough = .ok p) :
    Placed allocated received missing terminalThrough ∧
      Resolves received missing terminalThrough p := by
  have hPlaced := resolveDeliveryProgress_placed hRes
  replace hRes := past_guard hRes
  replace hRes := past_guard hRes
  replace hRes := past_guard hRes
  cases hRes
  refine ⟨hPlaced, ?_, isFrontier_highestContiguous hPlaced.received_separated
    fun r hr => (hPlaced.received_within r hr).1⟩
  have hFront := isFrontier_reachFrom le_rfl (sortByFirst_pairwise _) fun r hr => (hPlaced.sorted r hr).1
  rw [← ProgressScan.start_settled] at hFront
  have hSame : ∀ n, ((1 ≤ n ∧ n ≤ 0) ∨
      Covers (sortByFirst (received ++ missing ++ terminalRange terminalThrough)) n) ↔
      Settled received missing terminalThrough n := by
    intro n
    rw [covers_sorted]
    refine or_iff_right (by omega)
  exact ⟨hFront.nonneg, fun k hLow hHigh => (hSame k).mp (hFront.below k hLow hHigh),
    fun hNext => hFront.stops ((hSame _).mpr hNext)⟩

/-! ## Every field of the result -/

/-- The arguments as slices: a nil slice is refused with the other arguments that are not valid. -/
def resolveDeliveryProgressOf (allocated : Int) (received missing : Option (List SequenceRange))
    (terminalThrough : Int) : Except Fault DeliveryProgress :=
  match received, missing with
  | some received, some missing => resolveDeliveryProgress allocated received missing terminalThrough
  | _, _ => .error .deliveryInvalid

/-- The greatest position received, or zero. -/
def IsHighest (received : List SequenceRange) (n : Int) : Prop :=
  (∀ k, Covers received k → k ≤ n) ∧ if received = [] then n = 0 else Covers received n

theorem isHighest_highestSeen (hSep : Separated received) : IsHighest received (highestSeen received) :=
    by
  rcases eq_nil_or_concat received with rfl | ⟨rest, r, rfl⟩
  · exact ⟨fun k hk => absurd hk (covers_nil k), by simp [highestSeen]⟩
  have hProper := hSep.proper r (by simp)
  refine ⟨fun k hk => ?_, by simp [highestSeen, Range.Holds, hProper]⟩
  simp only [concat_eq_append, covers_append, covers_cons, covers_nil, or_false] at hk
  simp only [highestSeen, concat_eq_append, getLast?_concat, Option.map_some, Option.getD_some]
  obtain ⟨s, hs, hHolds⟩ | hHolds := hk
  · have hApart : s.last + 1 < r.first :=
      (pairwise_append.mp (concat_eq_append ▸ hSep.apart)).2.2 s hs r (by simp)
    have := hHolds.2
    omega
  · exact hHolds.2

/-- The maximal intervals of the positions up to the allocation that nothing settles, in order. -/
structure IsHoles (allocated : Int) (settled : Int → Prop) (holes : List SequenceRange) : Prop where
  separated : Separated holes
  exact : ∀ n, Covers holes n ↔ 1 ≤ n ∧ n ≤ allocated ∧ ¬ settled n

theorem resolveDeliveryProgress_exact (allocated : Int) (received missing : Option (List SequenceRange))
    (terminalThrough : Int) :
    ((∃ p, resolveDeliveryProgressOf allocated received missing terminalThrough = .ok p) ↔
      ∃ rs ms, received = some rs ∧ missing = some ms ∧ Placed allocated rs ms terminalThrough) ∧
    ∀ rs ms p, resolveDeliveryProgressOf allocated (some rs) (some ms) terminalThrough = .ok p →
      IsHighest rs p.highestSeen ∧ IsFrontier (Covers rs) p.highestContiguous ∧
      IsFrontier (Settled rs ms terminalThrough) p.settledThrough ∧
      ∃ holes, IsHoles allocated (Settled rs ms terminalThrough) holes ∧
        p.missing = holes.take 32 ∧ (p.missingTruncated = true ↔ 32 < holes.length) := by
  constructor
  · constructor
    · rintro ⟨p, hRes⟩
      unfold resolveDeliveryProgressOf at hRes
      split at hRes
      · exact ⟨_, _, rfl, rfl, resolveDeliveryProgress_placed hRes⟩
      · cases hRes
    · rintro ⟨rs, ms, rfl, rfl, hPlaced⟩
      exact resolveDeliveryProgress_eq_ok hPlaced
  · intro rs ms p hRes
    obtain ⟨hPlaced, hResolves⟩ := resolveDeliveryProgress_spec hRes
    replace hRes := past_guard hRes
    replace hRes := past_guard hRes
    replace hRes := past_guard hRes
    cases hRes
    refine ⟨isHighest_highestSeen hPlaced.received_separated, hResolves.contiguous, hResolves.settled, ?_⟩
    obtain ⟨hMiss, hTruncated⟩ := ProgressScan.foldl_reports
      (sortByFirst (rs ++ ms ++ terminalRange terminalThrough)) (s := ProgressScan.start) allocated (by decide)
    refine ⟨_, ⟨holesFrom_separated fun r hr => (hPlaced.sorted r hr).2.1, fun n => ?_⟩, hMiss,
      by rw [hTruncated]; simp [ProgressScan.start]⟩
    rw [covers_holesFrom (fun r hr => (hPlaced.sorted r hr).2) (sortByFirst_pairwise _), covers_sorted]
    exact Iff.rfl

end Proctor.Delivery
