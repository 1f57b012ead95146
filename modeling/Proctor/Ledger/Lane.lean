import Proctor.Ranges.Scan

/-!
# A lane of numbered positions

A lane hands out the positions `1, …, allocated`. Entries arrive for some of
them in any order, ranges of others are given up as gaps, and a terminal bound
settles every position up to it. Entries below the frontier of the covered
positions are interpreted. The steps below are everything that may happen to a
lane; they keep it sound and none of its bounds moves back.
-/

namespace Ledger

open Ranges List

abbrev Usage := Int × Int × Int

structure Entry where
  sequence : Int
  records : Int
  bytes : Int
  interpreted : Bool
deriving DecidableEq, Repr

def Entry.interpretThrough (n : Int) (e : Entry) : Entry :=
  { e with interpreted := e.interpreted || decide (e.sequence ≤ n) }

@[simp]
theorem Entry.interpretThrough_sequence (n : Int) (e : Entry) :
    (e.interpretThrough n).sequence = e.sequence := rfl

@[simp]
theorem Entry.interpretThrough_records (n : Int) (e : Entry) :
    (e.interpretThrough n).records = e.records := rfl

@[simp]
theorem Entry.interpretThrough_bytes (n : Int) (e : Entry) :
    (e.interpretThrough n).bytes = e.bytes := rfl

def recordsOf (entries : List Entry) : Int :=
  (entries.map Entry.records).sum

def bytesOf (entries : List Entry) : Int :=
  (entries.map Entry.bytes).sum

def pendingOf (entries : List Entry) : Int :=
  (entries.map fun e => if e.interpreted then 0 else e.bytes).sum

def releasedBy (n : Int) (entries : List Entry) : Int :=
  (entries.map fun e => if !e.interpreted && e.sequence ≤ n then e.bytes else 0).sum

@[simp]
theorem recordsOf_interpretThrough (n : Int) (entries : List Entry) :
    recordsOf (entries.map (Entry.interpretThrough n)) = recordsOf entries := by
  simp [recordsOf, Function.comp_def]

@[simp]
theorem bytesOf_interpretThrough (n : Int) (entries : List Entry) :
    bytesOf (entries.map (Entry.interpretThrough n)) = bytesOf entries := by
  simp [bytesOf, Function.comp_def]

theorem pendingOf_interpretThrough (n : Int) (entries : List Entry) :
    pendingOf (entries.map (Entry.interpretThrough n)) = pendingOf entries - releasedBy n entries := by
  induction entries with
  | nil => simp [pendingOf, releasedBy]
  | cons e rest ih =>
    simp only [pendingOf, releasedBy, map_cons, sum_cons] at ih ⊢
    rw [ih]
    by_cases hInterpreted : e.interpreted = true <;> by_cases hBelow : e.sequence ≤ n <;>
      simp only [Entry.interpretThrough, hInterpreted, hBelow, decide_true, decide_false,
        Bool.or_true, Bool.or_false, Bool.not_true, Bool.not_false, Bool.and_true, Bool.and_false,
        Bool.false_eq_true, if_true, if_false] <;> omega

variable {entries entries' : List Entry} {n : Int} {l : Lane}

theorem releasedBy_nonneg (hBytes : ∀ e ∈ entries, 0 ≤ e.bytes) : 0 ≤ releasedBy n entries := by
  apply sum_nonneg
  intro x hx
  obtain ⟨e, he, rfl⟩ := mem_map.mp hx
  have := hBytes e he
  split <;> omega

theorem releasedBy_le_pendingOf
    (hBytes : ∀ e ∈ entries, 0 ≤ e.bytes) : releasedBy n entries ≤ pendingOf entries := by
  apply sum_le_sum
  intro e he
  have := hBytes e he
  by_cases hInterpreted : e.interpreted = true <;> by_cases hBelow : e.sequence ≤ n <;>
    simp [hInterpreted, hBelow, this]

theorem pendingOf_perm (hPerm : entries.Perm entries') : pendingOf entries = pendingOf entries' :=
  (hPerm.map _).sum_eq

theorem releasedBy_perm
    (hPerm : entries.Perm entries') : releasedBy n entries = releasedBy n entries' :=
  (hPerm.map _).sum_eq

theorem pendingOf_le_releasedBy
    (hBelow : ∀ e ∈ entries, e.sequence ≤ n) : pendingOf entries = releasedBy n entries := by
  have hSame : (entries.map fun e : Entry => if e.interpreted then 0 else e.bytes) =
      entries.map fun e : Entry => if !e.interpreted && e.sequence ≤ n then e.bytes else 0 := by
    refine map_congr_left fun e he => ?_
    by_cases hInterpreted : e.interpreted = true <;> simp [hInterpreted, hBelow e he]
  simp only [pendingOf, releasedBy, hSame]

/-! ## Lanes -/

structure Lane where
  scope : Nat
  allocated : Int
  terminal : Int
  settled : Int
  /-- The last position a closed lane may allocate; none while it is open. -/
  boundary : Option Int
  entries : List Entry
  gaps : List Range
deriving DecidableEq, Repr

def Lane.fresh (scope : Nat) : Lane :=
  ⟨scope, 0, 0, 0, none, [], []⟩

def Lane.Received (l : Lane) (n : Int) : Prop :=
  ∃ e ∈ l.entries, e.sequence = n

def Lane.Missing (l : Lane) (n : Int) : Prop :=
  Covers l.gaps n

def Lane.Covered (l : Lane) (n : Int) : Prop :=
  l.Received n ∨ l.Missing n ∨ (1 ≤ n ∧ n ≤ l.terminal)

def Lane.usage (l : Lane) : Usage :=
  (recordsOf l.entries, bytesOf l.entries, l.allocated)

structure Lane.Sound (l : Lane) : Prop where
  ascending : l.entries.Pairwise fun a b => a.sequence < b.sequence
  received_within : ∀ e ∈ l.entries, 1 ≤ e.sequence ∧ e.sequence ≤ l.allocated
  bytes_nonneg : ∀ e ∈ l.entries, 0 ≤ e.bytes
  gaps_proper : ∀ g ∈ l.gaps, g.first ≤ g.last
  gaps_within : ∀ g ∈ l.gaps, 1 ≤ g.first ∧ g.last ≤ l.allocated
  gaps_disjoint : l.gaps.Pairwise Range.Disjoint
  disjoint : ∀ n, l.Received n → ¬ l.Missing n
  terminal_nonneg : 0 ≤ l.terminal
  terminal_le : l.terminal ≤ l.allocated
  bounded : ∀ b, l.boundary = some b → l.allocated ≤ b

structure Lane.Tracked (l : Lane) : Prop where
  nonneg : 0 ≤ l.settled
  covered : ∀ k, 1 ≤ k → k ≤ l.settled → l.Covered k

structure Lane.Extends (l l' : Lane) : Prop where
  scope : l'.scope = l.scope
  allocated : l.allocated ≤ l'.allocated
  terminal : l.terminal ≤ l'.terminal
  settled : l.settled ≤ l'.settled
  received : ∀ n, l.Received n → l'.Received n
  missing : ∀ n, l.Missing n → l'.Missing n
  closed : l.boundary.isSome → l'.boundary.isSome

theorem Lane.Extends.rfl : l.Extends l :=
  ⟨Eq.refl _, le_refl _, le_refl _, le_refl _, fun _ h => h, fun _ h => h, fun h => h⟩

theorem Lane.Extends.trans {l' l'' : Lane} (h : l.Extends l') (h' : l'.Extends l'') : l.Extends l'' :=
  ⟨h'.scope.trans h.scope, h.allocated.trans h'.allocated, h.terminal.trans h'.terminal,
    h.settled.trans h'.settled, fun n hn => h'.received n (h.received n hn),
    fun n hn => h'.missing n (h.missing n hn), fun hc => h'.closed (h.closed hc)⟩

theorem Lane.fresh_sound (scope : Nat) : (Lane.fresh scope).Sound where
  ascending := by simp [Lane.fresh]
  received_within := by simp [Lane.fresh]
  bytes_nonneg := by simp [Lane.fresh]
  gaps_proper := by simp [Lane.fresh]
  gaps_within := by simp [Lane.fresh]
  gaps_disjoint := by simp [Lane.fresh]
  disjoint := by simp [Lane.fresh, Lane.Received]
  terminal_nonneg := le_rfl
  terminal_le := le_rfl
  bounded := by simp [Lane.fresh]

theorem Lane.fresh_tracked (scope : Nat) : (Lane.fresh scope).Tracked where
  nonneg := le_rfl
  covered := fun k hLow hHigh => by simp only [Lane.fresh] at hHigh; omega

theorem Lane.Sound.allocated_nonneg (h : l.Sound) : 0 ≤ l.allocated :=
  h.terminal_nonneg.trans h.terminal_le

theorem Lane.Sound.entries_length_le (h : l.Sound) : (l.entries.length : Int) ≤ l.allocated := by
  have hNodup : (l.entries.map Entry.sequence).Nodup :=
    pairwise_map.mpr (h.ascending.imp fun {a b} hLess => ne_of_lt hLess)
  have hSubset : (l.entries.map Entry.sequence).toFinset ⊆ Finset.Icc 1 l.allocated := by
    intro n hn
    obtain ⟨e, he, rfl⟩ := mem_map.mp (mem_toFinset.mp hn)
    exact Finset.mem_Icc.mpr (h.received_within e he)
  have hCard := Finset.card_le_card hSubset
  rw [toFinset_card_of_nodup hNodup, length_map, Int.card_Icc] at hCard
  have := h.allocated_nonneg
  omega

end Ledger
