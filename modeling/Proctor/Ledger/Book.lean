import Proctor.Ledger.Step

/-!
# Lanes under two levels of quota

A book holds lanes, each charged to one of several scopes and to the whole. A
scope, or the whole, may be frozen: it then accepts no further charge. Pending
bytes are those of the entries not yet interpreted, and between changes they
leave a reserve free for the entries that settle the head of a lane.
-/

namespace Ledger

open Ranges List

structure Scope where
  usage : Usage
  summaryOnly : Bool
deriving DecidableEq, Repr

def Scope.fresh : Scope :=
  ⟨0, false⟩

def Scope.charge (charge : Usage) (s : Scope) : Scope :=
  { s with usage := s.usage + charge }

def Scope.freeze (s : Scope) : Scope :=
  { s with summaryOnly := true }

structure Limits where
  scope : Usage
  whole : Usage
  pending : Int
  reserve : Int
  intervals : Int
  scope_nonneg : 0 ≤ scope
  whole_nonneg : 0 ≤ whole
  reserve_le : reserve ≤ pending
  intervals_nonneg : 0 ≤ intervals

structure Book where
  lanes : List Lane
  scopes : List Scope
  whole : Scope
  pending : Int
  intervals : Int

def Book.empty : Book :=
  ⟨[], [], Scope.fresh, 0, 0⟩

def total (chosen : Lane → Bool) (lanes : List Lane) : Usage :=
  (lanes.map fun l => if chosen l then l.usage else 0).sum

def pendingTotal (lanes : List Lane) : Int :=
  (lanes.map fun l => pendingOf l.entries).sum

def gapTotal (lanes : List Lane) : Int :=
  (lanes.map fun l => (l.gaps.length : Int)).sum

structure Book.Sound (limits : Limits) (b : Book) : Prop where
  lane : ∀ l ∈ b.lanes, l.Sound
  scope_lt : ∀ l ∈ b.lanes, l.scope < b.scopes.length
  scope_within : ∀ s ∈ b.scopes, s.usage ≤ limits.scope
  whole_within : b.whole.usage ≤ limits.whole
  pending_eq : b.pending = pendingTotal b.lanes
  pending_reserve : b.pending ≤ limits.pending - limits.reserve
  gaps_le : gapTotal b.lanes ≤ b.intervals
  intervals_le : b.intervals ≤ limits.intervals

/-- The counters are those of the lanes at hand. Lanes that were erased stay
counted, so this holds only until then. -/
structure Book.Exact (b : Book) : Prop where
  lane : ∀ l ∈ b.lanes, l.Tracked
  scope_usage : ∀ (i : Nat) (s : Scope), b.scopes[i]? = some s →
    s.usage = total (fun l => decide (l.scope = i)) b.lanes
  whole_usage : b.whole.usage = total (fun _ => true) b.lanes

/-- Nothing of the first book is taken back in the second, and what is frozen
no longer changes. -/
structure Book.Extends (b b' : Book) : Prop where
  lane : ∀ (j : Nat) (l : Lane), b.lanes[j]? = some l → ∃ l', b'.lanes[j]? = some l' ∧ l.Extends l'
  scope : ∀ (i : Nat) (s : Scope), b.scopes[i]? = some s →
    ∃ s', b'.scopes[i]? = some s' ∧ (s.summaryOnly = true → s' = s)
  whole : b.whole.summaryOnly = true → b'.whole = b.whole

theorem Book.Extends.rfl {b : Book} : b.Extends b :=
  ⟨fun _ l hl => ⟨l, hl, Lane.Extends.rfl⟩, fun _ s hs => ⟨s, hs, fun _ => Eq.refl s⟩,
    fun _ => Eq.refl _⟩

theorem Book.Extends.trans {b b' b'' : Book} (h : b.Extends b') (h' : b'.Extends b'') :
    b.Extends b'' where
  lane := fun j l hl => by
    obtain ⟨l', hl', hExtends⟩ := h.lane j l hl
    obtain ⟨l'', hl'', hExtends'⟩ := h'.lane j l' hl'
    exact ⟨l'', hl'', hExtends.trans hExtends'⟩
  scope := fun i s hs => by
    obtain ⟨s', hs', hSame⟩ := h.scope i s hs
    obtain ⟨s'', hs'', hSame'⟩ := h'.scope i s' hs'
    refine ⟨s'', hs'', fun hFrozen => ?_⟩
    obtain rfl := hSame hFrozen
    exact hSame' hFrozen
  whole := fun hFrozen => by
    have hSame := h.whole hFrozen
    rw [h'.whole (by rw [hSame]; exact hFrozen), hSame]

/-! ## Changes -/

def Book.put (b : Book) (j : Nat) (l : Lane) (charge : Usage) (pending intervals : Int) : Book where
  lanes := b.lanes.set j l
  scopes := b.scopes.modify l.scope (Scope.charge charge)
  whole := b.whole.charge charge
  pending := pending
  intervals := intervals

structure Book.Admits (limits : Limits) (b : Book) (scope : Nat) (charge : Usage) : Prop where
  scope : ∀ s, b.scopes[scope]? = some s →
    s.summaryOnly = false ∧ s.usage + charge ≤ limits.scope
  whole : b.whole.summaryOnly = false ∧ b.whole.usage + charge ≤ limits.whole

inductive Change (limits : Limits) : Book → Book → Prop
  | lane {b : Book} {j : Nat} {l l' : Lane} {charge : Usage} {ranges : Int}
      (hLane : b.lanes[j]? = some l) (hStep : l.Step charge ranges l')
      (hCharge : charge = 0 ∨ b.Admits limits l.scope charge)
      (hPending : pendingOf l'.entries ≤ pendingOf l.entries ∨
        b.pending + (pendingOf l'.entries - pendingOf l.entries) ≤ limits.pending - limits.reserve)
      (hRanges : ranges = 0 ∨ b.intervals + ranges ≤ limits.intervals) :
      Change limits b (b.put j l' charge
        (b.pending + (pendingOf l'.entries - pendingOf l.entries)) (b.intervals + ranges))
  | freezeScope {b : Book} (i : Nat) :
      Change limits b { b with scopes := b.scopes.modify i Scope.freeze }
  | freezeWhole {b : Book} : Change limits b { b with whole := b.whole.freeze }
  | openLane {b : Book} (scope : Nat) (hScope : scope < b.scopes.length) :
      Change limits b { b with lanes := b.lanes ++ [Lane.fresh scope] }
  | openScope {b : Book} : Change limits b { b with scopes := b.scopes ++ [Scope.fresh] }
  /-- Intervals declared elsewhere count against the same limit. -/
  | observe {b : Book} (intervals : Int) (hMore : b.intervals ≤ intervals)
      (hLimit : intervals ≤ limits.intervals) : Change limits b { b with intervals := intervals }

abbrev Changes (limits : Limits) : Book → Book → Prop :=
  Relation.ReflTransGen (Change limits)

/-! ## Sums over lanes -/

variable {j k : Nat} {l l' m : Lane} {lanes : List Lane} {charge : Usage}

theorem sum_map_set {α : Type} {M : Type} [AddCommGroup M] (f : α → M) {xs : List α}
    {x : α} (hx : xs[j]? = some x) (y : α) :
    ((xs.set j y).map f).sum = (xs.map f).sum + (f y - f x) := by
  obtain ⟨hj, rfl⟩ := List.getElem?_eq_some_iff.mp hx
  rw [map_set, sum_set']
  simp [hj, sub_eq_add_neg, add_comm]

theorem total_set (chosen : Lane → Bool) (hLane : lanes[j]? = some l) (hChosen : chosen l' = chosen l) :
    total chosen (lanes.set j l') =
      total chosen lanes + if chosen l then l'.usage - l.usage else 0 := by
  rw [total, sum_map_set _ hLane, hChosen]
  split <;> simp [total]

theorem total_eq (chosen : Lane → Bool) (lanes : List Lane) : total chosen lanes =
      (((lanes.filter chosen).map fun l => recordsOf l.entries).sum,
        ((lanes.filter chosen).map fun l => bytesOf l.entries).sum,
        ((lanes.filter chosen).map Lane.allocated).sum) := by
  induction lanes with
  | nil => rfl
  | cons l rest ih =>
    simp only [total] at ih
    simp only [total, map_cons, sum_cons, ih, filter_cons]
    split
    · rfl
    · exact zero_add _

theorem getElem?_concat {α : Type} {xs : List α} {x y : α} {i : Nat}
    (h : (xs ++ [x])[i]? = some y) : xs[i]? = some y ∨ (i = xs.length ∧ x = y) := by
  rw [getElem?_append] at h
  split at h
  · exact Or.inl h
  next hNew =>
    obtain ⟨hIndex, hSame⟩ := List.getElem?_eq_some_iff.mp h
    simp only [length_singleton] at hIndex
    exact Or.inr ⟨by omega, by simpa using hSame⟩

theorem total_eq_zero {chosen : Lane → Bool}
    (hNone : ∀ l ∈ lanes, chosen l = false) : total chosen lanes = 0 := by
  refine sum_eq_zero fun u hu => ?_
  obtain ⟨l, hl, rfl⟩ := mem_map.mp hu
  simp [hNone l hl]

/-! ## Soundness is kept and nothing is taken back -/

variable {limits : Limits} {b b' : Book}

theorem Book.Sound.put (h : b.Sound limits) {ranges : Int}
    (hLane : b.lanes[j]? = some l) (hStep : l.Step charge ranges l')
    (hCharge : charge = 0 ∨ b.Admits limits l.scope charge)
    (hPend : pendingOf l'.entries ≤ pendingOf l.entries ∨
      b.pending + (pendingOf l'.entries - pendingOf l.entries) ≤ limits.pending - limits.reserve)
    (hRanges : ranges = 0 ∨ b.intervals + ranges ≤ limits.intervals) :
    (b.put j l' charge (b.pending + (pendingOf l'.entries - pendingOf l.entries))
      (b.intervals + ranges)).Sound limits where
  lane := fun m hm => by
    obtain hm | rfl := mem_or_eq_of_mem_set hm
    · exact h.lane m hm
    · exact hStep.sound (h.lane l (mem_of_getElem? hLane))
  scope_lt := fun m hm => by
    simp only [Book.put, length_modify]
    obtain hm | rfl := mem_or_eq_of_mem_set hm
    · exact h.scope_lt m hm
    · rw [hStep.scope_eq]
      exact h.scope_lt l (mem_of_getElem? hLane)
  scope_within := fun s hs => by
    obtain ⟨i, hs⟩ := mem_iff_getElem?.mp hs
    simp only [Book.put, getElem?_modify, hStep.scope_eq] at hs
    obtain ⟨old, hOld, rfl⟩ := Option.map_eq_some_iff.mp hs
    have hWithin := h.scope_within old (mem_of_getElem? hOld)
    by_cases hScope : l.scope = i
    · subst hScope
      obtain rfl | hAdmits := hCharge
      · simpa [Scope.charge] using hWithin
      · simpa [Scope.charge] using (hAdmits.scope old hOld).2
    · simpa [hScope] using hWithin
  whole_within := by
    obtain rfl | hAdmits := hCharge
    · simpa [Book.put, Scope.charge] using h.whole_within
    · exact hAdmits.whole.2
  pending_eq := by
    simp only [Book.put, pendingTotal]
    rw [sum_map_set _ hLane, h.pending_eq, pendingTotal]
  pending_reserve := by
    have hReserve := h.pending_reserve
    simp only [Book.put]
    omega
  gaps_le := by
    have hGaps := h.gaps_le
    have hMore := hStep.gaps_length
    simp only [Book.put, gapTotal] at hGaps ⊢
    rw [sum_map_set _ hLane]
    omega
  intervals_le := by
    have hLimit := h.intervals_le
    simp only [Book.put]
    omega

theorem Book.Exact.put (h : b.Exact) (hSound : b.Sound limits) {ranges : Int} (hLane : b.lanes[j]? = some l)
    (hStep : l.Step charge ranges l') (pending intervals : Int) :
    (b.put j l' charge pending intervals).Exact where
  lane := fun m hm => by
    obtain hm | rfl := mem_or_eq_of_mem_set hm
    · exact h.lane m hm
    · have hMem := mem_of_getElem? hLane
      exact hStep.tracked (hSound.lane l hMem) (h.lane l hMem)
  scope_usage := fun i s hs => by
    simp only [Book.put, getElem?_modify] at hs
    obtain ⟨old, hOld, rfl⟩ := Option.map_eq_some_iff.mp hs
    simp only [Book.put]
    rw [total_set _ hLane (by rw [hStep.scope_eq]), ← h.scope_usage i old hOld, hStep.usage,
      hStep.scope_eq]
    by_cases hScope : l.scope = i <;> simp [hScope, Scope.charge]
  whole_usage := by
    simp only [Book.put]
    have hTotal : total (fun _ => true) (b.lanes.set j l') = _ := total_set _ hLane rfl
    rw [hTotal, ← h.whole_usage, hStep.usage]
    simp [Scope.charge]

section

variable (hChg : Change limits b b')
include hChg

theorem Change.sound (h : b.Sound limits) : b'.Sound limits := by
  cases hChg with
  | lane hLane hStep hCharge hPend hRanges => exact h.put hLane hStep hCharge hPend hRanges
  | freezeScope i =>
    refine { h with scope_lt := by simpa using h.scope_lt, scope_within := ?_ }
    intro s hs
    obtain ⟨k, hs⟩ := mem_iff_getElem?.mp hs
    simp only [getElem?_modify] at hs
    obtain ⟨old, hOld, rfl⟩ := Option.map_eq_some_iff.mp hs
    have hWithin := h.scope_within old (mem_of_getElem? hOld)
    split <;> exact hWithin
  | freezeWhole => exact { h with }
  | openLane scope hScope =>
    refine { h with
      lane := ?_
      scope_lt := ?_
      pending_eq := ?_
      gaps_le := ?_ }
    · exact forall_mem_append.mpr ⟨h.lane, by simpa using Lane.fresh_sound scope⟩
    · exact forall_mem_append.mpr ⟨h.scope_lt, by simpa [Lane.fresh] using hScope⟩
    · rw [h.pending_eq]
      simp [pendingTotal, pendingOf, Lane.fresh]
    · simpa [gapTotal, Lane.fresh] using h.gaps_le
  | openScope =>
    refine { h with scope_lt := ?_, scope_within := ?_ }
    · intro l hl
      have := h.scope_lt l hl
      simp only [length_append, length_singleton]
      omega
    · exact forall_mem_append.mpr ⟨h.scope_within, by
        simpa [Scope.fresh] using limits.scope_nonneg⟩
  | observe intervals hMore hLimit =>
    exact { h with gaps_le := h.gaps_le.trans hMore, intervals_le := hLimit }

theorem Change.exact_ (hSound : b.Sound limits) (h : b.Exact) :
    b'.Exact := by
  cases hChg with
  | lane hLane hStep => exact h.put hSound hLane hStep _ _
  | freezeScope i =>
    refine { h with scope_usage := ?_ }
    intro k s hs
    simp only [getElem?_modify] at hs
    obtain ⟨old, hOld, rfl⟩ := Option.map_eq_some_iff.mp hs
    rw [← h.scope_usage k old hOld]
    split <;> rfl
  | freezeWhole => exact { h with }
  | openLane scope hScope =>
    have hFresh : (Lane.fresh scope).usage = 0 := rfl
    refine { h with lane := ?_, scope_usage := ?_, whole_usage := ?_ }
    · exact forall_mem_append.mpr ⟨h.lane, by simpa using Lane.fresh_tracked scope⟩
    · intro i s hs
      rw [h.scope_usage i s hs]
      simp [total, hFresh]
    · rw [h.whole_usage]
      simp [total, hFresh]
  | openScope =>
    refine { h with scope_usage := ?_ }
    intro i s hs
    obtain hOld | ⟨rfl, rfl⟩ := getElem?_concat hs
    · exact h.scope_usage i s hOld
    refine (total_eq_zero fun l hl => ?_).symm
    have := hSound.scope_lt l hl
    simp only [decide_eq_false_iff_not]
    omega
  | observe intervals hMore hLimit => exact { h with }

theorem Change.extends_ (hSound : b.Sound limits) (h : b.Exact) :
    b.Extends b' := by
  cases hChg with
  | @lane j l l' charge ranges hLane hStep hCharge hPend hRanges =>
    refine ⟨fun k m hm => ?_, fun i s hs => ?_, fun hFrozen => ?_⟩
    · simp only [Book.put, getElem?_set]
      by_cases hSame : j = k
      · subst hSame
        obtain rfl : l = m := Option.some.inj (hLane.symm.trans hm)
        have hBound := (List.getElem?_eq_some_iff.mp hLane).1
        have hMem := mem_of_getElem? hLane
        exact ⟨l', by simp [hBound], hStep.extends_ (hSound.lane l hMem) (h.lane l hMem)⟩
      · exact ⟨m, by simp [hSame, hm], Lane.Extends.rfl⟩
    · simp only [Book.put, getElem?_modify, hStep.scope_eq, hs]
      refine ⟨_, rfl, fun hFrozen => ?_⟩
      split
      next hScope =>
        obtain rfl | hAdmits := hCharge
        · simp [Scope.charge]
        · have := (hAdmits.scope s (hScope ▸ hs)).1
          simp [hFrozen] at this
      · rfl
    · obtain rfl | hAdmits := hCharge
      · simp [Book.put, Scope.charge]
      · have := hAdmits.whole.1
        simp [hFrozen] at this
  | freezeScope i =>
    refine ⟨fun k m hm => ⟨m, hm, Lane.Extends.rfl⟩, fun k s hs => ?_, fun _ => rfl⟩
    simp only [getElem?_modify, hs]
    refine ⟨_, rfl, fun hFrozen => ?_⟩
    split
    · obtain ⟨usage, summaryOnly⟩ := s
      simp_all [Scope.freeze]
    · rfl
  | freezeWhole =>
    refine ⟨fun k m hm => ⟨m, hm, Lane.Extends.rfl⟩, fun k s hs => ⟨s, hs, fun _ => rfl⟩,
      fun hFrozen => ?_⟩
    obtain ⟨lanes, scopes, ⟨usage, summaryOnly⟩, pending, intervals⟩ := b
    simp_all [Scope.freeze]
  | openLane scope hScope =>
    refine ⟨fun k m hm => ⟨m, ?_, Lane.Extends.rfl⟩, fun k s hs => ⟨s, hs, fun _ => rfl⟩,
      fun _ => rfl⟩
    exact (List.getElem?_append_left (List.getElem?_eq_some_iff.mp hm).1).trans hm
  | openScope =>
    refine ⟨fun k m hm => ⟨m, hm, Lane.Extends.rfl⟩, fun k s hs => ⟨s, ?_, fun _ => rfl⟩,
      fun _ => rfl⟩
    exact (List.getElem?_append_left (List.getElem?_eq_some_iff.mp hs).1).trans hs
  | observe intervals hMore hLimit =>
    exact ⟨fun k m hm => ⟨m, hm, Lane.Extends.rfl⟩, fun k s hs => ⟨s, hs, fun _ => rfl⟩,
      fun _ => rfl⟩

theorem Change.lane_scope
    (hm : b.lanes[k]? = some m) : ∃ m', b'.lanes[k]? = some m' ∧ m'.scope = m.scope := by
  cases hChg with
  | @lane j l l' charge ranges hLane hStep hCharge hPend hRanges =>
    simp only [Book.put, getElem?_set]
    by_cases hSame : j = k
    · subst hSame
      obtain rfl : l = m := Option.some.inj (hLane.symm.trans hm)
      have hBound := (List.getElem?_eq_some_iff.mp hLane).1
      exact ⟨l', by simp [hBound], hStep.scope_eq⟩
    · exact ⟨m, by simp [hSame, hm], rfl⟩
  | openLane scope hScope =>
    exact ⟨m, (List.getElem?_append_left (List.getElem?_eq_some_iff.mp hm).1).trans hm, rfl⟩
  | _ => exact ⟨m, hm, rfl⟩

end

theorem Book.empty_sound (limits : Limits) : Book.empty.Sound limits where
  lane := by simp [Book.empty]
  scope_lt := by simp [Book.empty]
  scope_within := by simp [Book.empty]
  whole_within := limits.whole_nonneg
  pending_eq := rfl
  pending_reserve := by
    have := limits.reserve_le
    simp only [Book.empty]
    omega
  gaps_le := le_rfl
  intervals_le := limits.intervals_nonneg

theorem Book.empty_exact : Book.empty.Exact where
  lane := by simp [Book.empty]
  scope_usage := by simp [Book.empty]
  whole_usage := rfl

section

variable (hChanges : Changes limits b b')
include hChanges

theorem Changes.sound (h : b.Sound limits) : b'.Sound limits := by
  induction hChanges with
  | refl => exact h
  | tail _ hChg ih => exact hChg.sound ih

theorem Changes.exact_ (hSound : b.Sound limits) (h : b.Exact) :
    b'.Exact := by
  induction hChanges with
  | refl => exact h
  | tail hBefore hChg ih => exact hChg.exact_ (Changes.sound hBefore hSound) ih

theorem Changes.extends_ (hSound : b.Sound limits)
    (h : b.Exact) : b.Extends b' := by
  induction hChanges with
  | refl => exact Book.Extends.rfl
  | tail hBefore hChg ih =>
    exact ih.trans (hChg.extends_ (Changes.sound hBefore hSound)
      (Changes.exact_ hBefore hSound h))

theorem Changes.lane_scope
    (hm : b.lanes[k]? = some m) : ∃ m', b'.lanes[k]? = some m' ∧ m'.scope = m.scope := by
  induction hChanges with
  | refl => exact ⟨m, hm, rfl⟩
  | tail _ hChg ih =>
    obtain ⟨m', hm', hScope⟩ := ih
    obtain ⟨m'', hm'', hScope'⟩ := hChg.lane_scope hm'
    exact ⟨m'', hm'', hScope'.trans hScope⟩

end

theorem Book.Sound.erase (h : b.Sound limits)
    (hLanes : ∀ l ∈ lanes, l.Sound ∧ l.scope < b.scopes.length ∧ l.entries = [] ∧ l.gaps = []) :
    Book.Sound limits { b with lanes := lanes, pending := 0 } where
  lane := fun l hl => (hLanes l hl).1
  scope_lt := fun l hl => (hLanes l hl).2.1
  scope_within := h.scope_within
  whole_within := h.whole_within
  pending_eq := by
    refine (sum_eq_zero fun n hn => ?_).symm
    obtain ⟨l, hl, rfl⟩ := mem_map.mp hn
    simp [(hLanes l hl).2.2.1, pendingOf]
  pending_reserve := by
    have := limits.reserve_le
    simp only
    omega
  gaps_le := by
    have hNone : gapTotal lanes = 0 := by
      refine sum_eq_zero fun n hn => ?_
      obtain ⟨l, hl, rfl⟩ := mem_map.mp hn
      simp [(hLanes l hl).2.2.2]
    have hSome : 0 ≤ gapTotal b.lanes := by
      refine sum_nonneg fun n hn => ?_
      obtain ⟨l, -, rfl⟩ := mem_map.mp hn
      omega
    simp only [hNone]
    exact hSome.trans h.gaps_le
  intervals_le := h.intervals_le

end Ledger
