import Mathlib

/-!
# Finite sets of positions as lists of closed ranges

A range stands for the positions between its two bounds. A list of ranges is in
order when its members are nonempty, disjoint and ascending, and it is separated
when, in addition, no two members touch, which makes it the only ordered list
of its positions.
-/

namespace Ranges

open List

structure Range where
  first : Int
  last : Int
deriving DecidableEq, Repr

def Range.Holds (r : Range) (n : Int) : Prop :=
  r.first ≤ n ∧ n ≤ r.last

instance (r : Range) : DecidablePred r.Holds :=
  fun n => inferInstanceAs (Decidable (r.first ≤ n ∧ n ≤ r.last))

def Covers (rs : List Range) (n : Int) : Prop :=
  ∃ r ∈ rs, r.Holds n

@[simp]
theorem covers_nil (n : Int) : ¬ Covers [] n := by
  simp [Covers]

variable {rs : List Range} {r : Range}

@[simp]
theorem covers_cons {n : Int} : Covers (r :: rs) n ↔ r.Holds n ∨ Covers rs n := by
  simp [Covers]

@[simp]
theorem covers_append {rs ss : List Range} {n : Int} :
    Covers (rs ++ ss) n ↔ Covers rs n ∨ Covers ss n := by
  simp [Covers, or_and_right, exists_or]

theorem covers_congr_of_perm {rs ss : List Range} (hPerm : rs.Perm ss) (n : Int) :
    Covers rs n ↔ Covers ss n := by
  simp only [Covers, hPerm.mem_iff]

def Range.Before (a b : Range) : Prop :=
  a.last < b.first

def Range.Apart (a b : Range) : Prop :=
  a.last + 1 < b.first

structure Ordered (rs : List Range) : Prop where
  proper : ∀ r ∈ rs, r.first ≤ r.last
  ascending : rs.Pairwise Range.Before

structure Separated (rs : List Range) : Prop where
  proper : ∀ r ∈ rs, r.first ≤ r.last
  apart : rs.Pairwise Range.Apart

theorem Separated.ordered (hSep : Separated rs) : Ordered rs where
  proper := hSep.proper
  ascending := hSep.apart.imp fun {a b} hApart => by
    simp only [Range.Apart, Range.Before] at hApart ⊢
    omega

theorem Ordered.tail (hOrd : Ordered (r :: rs)) : Ordered rs where
  proper := fun s hs => hOrd.proper s (mem_cons_of_mem r hs)
  ascending := hOrd.ascending.of_cons

theorem Separated.tail (hSep : Separated (r :: rs)) : Separated rs where
  proper := fun s hs => hSep.proper s (mem_cons_of_mem r hs)
  apart := hSep.apart.of_cons

/-! ## Joining ranges that touch -/

def coalesceFrom (current : Range) : List Range → List Range
  | [] => [current]
  | r :: rest =>
    if current.last + 1 = r.first then coalesceFrom ⟨current.first, r.last⟩ rest
    else current :: coalesceFrom r rest

def coalesce : List Range → List Range
  | [] => []
  | r :: rest => coalesceFrom r rest

theorem coalesceFrom_length_le (current : Range) (rest : List Range) :
    (coalesceFrom current rest).length ≤ rest.length + 1 := by
  induction rest generalizing current with
  | nil => simp [coalesceFrom]
  | cons r rest ih =>
    simp only [coalesceFrom]
    split
    · exact (ih _).trans (by simp)
    · simpa using ih r

theorem coalesce_length_le (rs : List Range) : (coalesce rs).length ≤ rs.length := by
  cases rs with
  | nil => simp [coalesce]
  | cons r rest => exact coalesceFrom_length_le r rest

variable {rest : List Range}

theorem Ordered.join {current s : Range} (hOrd : Ordered (current :: s :: rest)) :
    Ordered (⟨current.first, s.last⟩ :: rest) where
  proper := by
    have hCur := hOrd.proper current (by simp)
    have hNext := hOrd.proper s (by simp)
    have hBefore : current.last < s.first :=
      (pairwise_cons.mp hOrd.ascending).1 s (by simp)
    intro t ht
    obtain rfl | ht := mem_cons.mp ht
    · simp only
      omega
    · exact hOrd.proper t (by simp [ht])
  ascending := pairwise_cons.mpr
    ⟨fun t ht => (pairwise_cons.mp hOrd.tail.ascending).1 t ht,
      hOrd.tail.tail.ascending⟩

variable {current : Range}

section

variable (hOrd : Ordered (current :: rest))
include hOrd

theorem coalesceFrom_first_le :
    ∀ r ∈ coalesceFrom current rest, current.first ≤ r.first := by
  induction rest generalizing current with
  | nil => simp [coalesceFrom]
  | cons s rest ih =>
    intro r hr
    simp only [coalesceFrom] at hr
    split at hr
    next => exact ih hOrd.join r hr
    next =>
      obtain rfl | hr := mem_cons.mp hr
      · exact le_rfl
      have hBefore : current.last < s.first :=
        (pairwise_cons.mp hOrd.ascending).1 s (by simp)
      have hCur := hOrd.proper current (by simp)
      have := ih hOrd.tail r hr
      omega

theorem coalesceFrom_separated : Separated (coalesceFrom current rest) := by
  induction rest generalizing current with
  | nil => exact ⟨by simpa [coalesceFrom] using hOrd.proper, by simp [coalesceFrom]⟩
  | cons s rest ih =>
    simp only [coalesceFrom]
    split
    next => exact ih hOrd.join
    next hApart =>
      have hRest := ih hOrd.tail
      have hBefore : current.last < s.first :=
        (pairwise_cons.mp hOrd.ascending).1 s (by simp)
      refine ⟨?_, pairwise_cons.mpr ⟨?_, hRest.apart⟩⟩
      · intro r hr
        obtain rfl | hr := mem_cons.mp hr
        · exact hOrd.proper _ (by simp)
        · exact hRest.proper r hr
      · intro r hr
        have := coalesceFrom_first_le hOrd.tail r hr
        simp only [Range.Apart]
        omega

theorem covers_coalesceFrom (n : Int) :
    Covers (coalesceFrom current rest) n ↔ Covers (current :: rest) n := by
  induction rest generalizing current with
  | nil => simp [coalesceFrom]
  | cons s rest ih =>
    simp only [coalesceFrom]
    split
    next hTouch =>
      rw [ih hOrd.join]
      have hCur := hOrd.proper current (by simp)
      have hNext := hOrd.proper s (by simp)
      have hJoin : Range.Holds ⟨current.first, s.last⟩ n ↔ current.Holds n ∨ s.Holds n := by
        simp only [Range.Holds]
        omega
      simp [hJoin, or_assoc]
    next => simp [ih hOrd.tail]

end

theorem coalesce_separated (hOrd : Ordered rs) : Separated (coalesce rs) := by
  cases rs with
  | nil => exact ⟨by simp [coalesce], by simp [coalesce]⟩
  | cons r rest => exact coalesceFrom_separated hOrd

theorem covers_coalesce (hOrd : Ordered rs) (n : Int) : Covers (coalesce rs) n ↔ Covers rs n := by
  cases rs with
  | nil => simp [coalesce]
  | cons r rest => exact covers_coalesceFrom hOrd n

end Ranges
