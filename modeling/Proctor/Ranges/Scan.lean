import Proctor.Ranges.Basic

/-!
# Scanning lists of ranges

Scans over ranges in ascending order: the merge that decides whether two lists
share a position, the walk that finds the frontier of a list, the last position
such that every position from one up to it is covered, and the walk that lists
the holes up to a bound.
-/

namespace Ranges

open List

/-! ## Sorting -/

def Range.Disjoint (a b : Range) : Prop :=
  a.last < b.first ∨ b.last < a.first

def sortByFirst (rs : List Range) : List Range :=
  rs.mergeSort fun a b => decide (a.first ≤ b.first)

theorem sortByFirst_perm (rs : List Range) : (sortByFirst rs).Perm rs :=
  mergeSort_perm _ _

@[simp]
theorem sortByFirst_length (rs : List Range) : (sortByFirst rs).length = rs.length :=
  (sortByFirst_perm rs).length_eq

theorem sortByFirst_pairwise (rs : List Range) :
    (sortByFirst rs).Pairwise fun a b => a.first ≤ b.first := by
  have hSorted : (sortByFirst rs).Pairwise fun a b => decide (a.first ≤ b.first) :=
    pairwise_mergeSort (by simp; omega) (by simp; omega) rs
  exact hSorted.imp fun {a b} h => by simpa using h

variable {rs ms : List Range} {n m : Int}

theorem sortByFirst_ordered (hProper : ∀ r ∈ rs, r.first ≤ r.last)
    (hDisjoint : rs.Pairwise Range.Disjoint) : Ordered (sortByFirst rs) := by
  have hPerm := sortByFirst_perm rs
  have hSorted : ∀ r ∈ sortByFirst rs, r.first ≤ r.last :=
    fun r hr => hProper r (hPerm.mem_iff.mp hr)
  have hApart : (sortByFirst rs).Pairwise Range.Disjoint :=
    (hPerm.pairwise_iff fun {a b} h => Or.symm h).mpr hDisjoint
  refine ⟨hSorted, (hApart.and (sortByFirst_pairwise rs)).imp_of_mem ?_⟩
  intro a b ha hb hab
  have hA := hSorted a ha
  have hB := hSorted b hb
  simp only [Range.Before]
  obtain ⟨h | h, hFirst⟩ := hab <;> omega

/-! ## Shared positions -/

def meetsWithin : Nat → List Range → List Range → Bool
  | fuel + 1, r :: rs, m :: ms =>
    if r.first ≤ m.last ∧ m.first ≤ r.last then true
    else if r.last < m.first then meetsWithin fuel rs (m :: ms)
    else meetsWithin fuel (r :: rs) ms
  | _, _, _ => false

/-- The merge of two ascending lists that stops at the first shared position. -/
def meets (rs ms : List Range) : Bool :=
  meetsWithin (rs.length + ms.length) rs ms

theorem Ordered.before_covered {r : Range} (hOrd : Ordered (r :: rs)) (hCovers : Covers rs n) :
    r.last < n := by
  obtain ⟨s, hs, hHolds⟩ := hCovers
  have hBefore : r.last < s.first := (pairwise_cons.mp hOrd.ascending).1 s hs
  exact lt_of_lt_of_le hBefore hHolds.1

theorem meetsWithin_iff (fuel : Nat) (hRecv : Ordered rs)
    (hMiss : Ordered ms) (hFuel : rs.length + ms.length ≤ fuel) :
    meetsWithin fuel rs ms ↔ ∃ n, Covers rs n ∧ Covers ms n := by
  induction fuel generalizing rs ms with
  | zero =>
    have hEmpty : rs = [] := eq_nil_of_length_eq_zero (by omega)
    simp [meetsWithin, hEmpty]
  | succ fuel ih =>
    cases rs with
    | nil => simp [meetsWithin]
    | cons r rs =>
      cases ms with
      | nil => simp [meetsWithin]
      | cons m ms =>
        have hR := hRecv.proper r (by simp)
        have hM := hMiss.proper m (by simp)
        simp only [length_cons] at hFuel
        simp only [meetsWithin]
        split
        next hShared =>
          simp only [true_iff]
          refine ⟨max r.first m.first, ?_, ?_⟩ <;>
            exact covers_cons.mpr (Or.inl ⟨by omega, by omega⟩)
        next hApart =>
          split
          next hBefore =>
            rw [ih hRecv.tail hMiss (by simp only [length_cons]; omega)]
            constructor
            · rintro ⟨n, hLeft, hRight⟩
              exact ⟨n, covers_cons.mpr (Or.inr hLeft), hRight⟩
            rintro ⟨n, hLeft, hRight⟩
            refine ⟨n, (covers_cons.mp hLeft).resolve_left ?_, hRight⟩
            rintro ⟨-, hLast⟩
            obtain hHolds | hLater := covers_cons.mp hRight
            · have := hHolds.1
              omega
            · have := hMiss.before_covered hLater
              omega
          next hAfter =>
            rw [ih hRecv hMiss.tail (by simp only [length_cons]; omega)]
            constructor
            · rintro ⟨n, hLeft, hRight⟩
              exact ⟨n, hLeft, covers_cons.mpr (Or.inr hRight)⟩
            rintro ⟨n, hLeft, hRight⟩
            refine ⟨n, hLeft, (covers_cons.mp hRight).resolve_left ?_⟩
            rintro ⟨-, hLast⟩
            obtain hHolds | hLater := covers_cons.mp hLeft
            · have := hHolds.1
              omega
            · have := hRecv.before_covered hLater
              omega

theorem meets_iff (hRecv : Ordered rs) (hMiss : Ordered ms) :
    meets rs ms ↔ ∃ n, Covers rs n ∧ Covers ms n :=
  meetsWithin_iff _ hRecv hMiss le_rfl

/-! ## The frontier -/

/-- Every position from one to `n` belongs to the set, and `n + 1` does not. -/
structure IsFrontier (C : Int → Prop) (n : Int) : Prop where
  nonneg : 0 ≤ n
  below : ∀ k, 1 ≤ k → k ≤ n → C k
  stops : ¬ C (n + 1)

theorem IsFrontier.le_of_below {C : Int → Prop} (hFront : IsFrontier C m)
    (hBelow : ∀ k, 1 ≤ k → k ≤ n → C k) : n ≤ m := by
  by_contra hLess
  have hNonneg := hFront.nonneg
  exact hFront.stops (hBelow (m + 1) (by omega) (by omega))

theorem IsFrontier.mono {C D : Int → Prop} (hC : IsFrontier C m)
    (hD : IsFrontier D n) (hSubset : ∀ k, C k → D k) : m ≤ n :=
  hD.le_of_below fun k hLow hHigh => hSubset k (hC.below k hLow hHigh)

def reachFrom (through : Int) : List Range → Int
  | [] => through
  | r :: rest => if through + 1 < r.first then through else reachFrom (max through r.last) rest

theorem isFrontier_reachFrom {through : Int} (hThrough : 0 ≤ through)
    (hSorted : rs.Pairwise fun a b => a.first ≤ b.first) (hFirst : ∀ r ∈ rs, 1 ≤ r.first) :
    IsFrontier (fun n => (1 ≤ n ∧ n ≤ through) ∨ Covers rs n) (reachFrom through rs) := by
  induction rs generalizing through with
  | nil =>
    exact ⟨hThrough, fun k hLow hHigh => Or.inl ⟨hLow, hHigh⟩, by simp [reachFrom]⟩
  | cons r rest ih =>
    obtain ⟨hLeast, hRest⟩ := pairwise_cons.mp hSorted
    simp only [reachFrom]
    split
    next hGap =>
      refine ⟨hThrough, fun k hLow hHigh => Or.inl ⟨hLow, hHigh⟩, ?_⟩
      rintro (⟨-, hHigh⟩ | ⟨s, hs, hHolds⟩)
      · omega
      obtain rfl | hs := mem_cons.mp hs
      · have := hHolds.1
        omega
      have := hLeast s hs
      have := hHolds.1
      omega
    next hReach =>
      have hMax : 0 ≤ max through r.last := le_max_of_le_left hThrough
      have hStep := ih hMax hRest fun s hs => hFirst s (mem_cons_of_mem r hs)
      have hPositive := hFirst r (by simp)
      have hSame : ∀ n, ((1 ≤ n ∧ n ≤ max through r.last) ∨ Covers rest n) ↔
          ((1 ≤ n ∧ n ≤ through) ∨ Covers (r :: rest) n) := by
        intro n
        have hUnion : (1 ≤ n ∧ n ≤ max through r.last) ↔ ((1 ≤ n ∧ n ≤ through) ∨ r.Holds n) := by
          simp only [Range.Holds]
          omega
        rw [hUnion, covers_cons, or_assoc]
      exact ⟨hStep.nonneg, fun k hLow hHigh => (hSame k).mp (hStep.below k hLow hHigh),
        fun hNext => hStep.stops ((hSame _).mpr hNext)⟩

/-! ## The holes -/

def holesFrom (through limit : Int) : List Range → List Range
  | [] => if through < limit then [⟨through + 1, limit⟩] else []
  | r :: rest =>
    if through + 1 < r.first then ⟨through + 1, r.first - 1⟩ :: holesFrom (max through r.last) limit rest
    else holesFrom (max through r.last) limit rest

variable {through limit : Int}

theorem holesFrom_after : ∀ h ∈ holesFrom through limit rs, through < h.first := by
  induction rs generalizing through with
  | nil =>
    intro h hh
    simp only [holesFrom, mem_ite_nil_right, mem_singleton] at hh
    rw [hh.2]
    exact Int.lt_succ through
  | cons r rest ih =>
    intro h hh
    have hLater : h ∈ holesFrom (max through r.last) limit rest → through < h.first := fun hh =>
      lt_of_le_of_lt (le_max_left _ _) (ih h hh)
    simp only [holesFrom] at hh
    split at hh
    · obtain rfl | hh := mem_cons.mp hh
      · exact Int.lt_succ through
      · exact hLater hh
    · exact hLater hh

theorem holesFrom_separated (hProper : ∀ r ∈ rs, r.first ≤ r.last) : Separated (holesFrom through limit rs) :=
    by
  induction rs generalizing through with
  | nil =>
    simp only [holesFrom]
    split
    · exact ⟨by simp; omega, by simp⟩
    · exact ⟨by simp, by simp⟩
  | cons r rest ih =>
    have hFirst := hProper r (by simp)
    have hRest := @ih (max through r.last) (fun s hs => hProper s (mem_cons_of_mem r hs))
    simp only [holesFrom]
    split
    · refine ⟨forall_mem_cons.mpr ⟨by simp only; omega, hRest.proper⟩,
        pairwise_cons.mpr ⟨fun h hh => ?_, hRest.apart⟩⟩
      have hAfter := holesFrom_after h hh
      simp only [Range.Apart]
      omega
    · exact hRest

theorem covers_holesFrom (hProper : ∀ r ∈ rs, r.first ≤ r.last ∧ r.last ≤ limit)
    (hSorted : rs.Pairwise fun a b => a.first ≤ b.first) (n : Int) :
    Covers (holesFrom through limit rs) n ↔ through < n ∧ n ≤ limit ∧ ¬ Covers rs n := by
  induction rs generalizing through with
  | nil =>
    simp only [holesFrom]
    split
    · simp [Range.Holds]
    · simp only [covers_nil, not_false_eq_true, and_true, false_iff]
      omega
  | cons r rest ih =>
    obtain ⟨hLeast, hTail⟩ := pairwise_cons.mp hSorted
    obtain ⟨hFirst, hLast⟩ := hProper r (by simp)
    have hRest := @ih (max through r.last) (fun s hs => hProper s (mem_cons_of_mem r hs)) hTail
    have hLater : Covers rest n → r.first ≤ n := fun ⟨s, hs, hHolds⟩ => (hLeast s hs).trans hHolds.1
    simp only [holesFrom]
    split
    · rw [covers_cons, covers_cons, hRest]
      simp only [Range.Holds]
      by_cases hCovers : Covers rest n
      · have := hLater hCovers
        simp only [hCovers, not_true_eq_false, and_false, or_false, or_true, iff_false]
        omega
      · simp only [hCovers, not_false_eq_true, and_true, or_false]
        omega
    · rw [covers_cons, hRest]
      simp only [Range.Holds, not_or]
      by_cases hCovers : Covers rest n
      · simp [hCovers]
      · simp only [hCovers, not_false_eq_true, and_true]
        omega

end Ranges
