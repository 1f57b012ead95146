import Mathlib

/-! # Recursive queries

`WITH RECURSIVE … UNION ALL` answers with a first set of rows, then with the rows that its second part
finds for them, and so on until a round finds none. Nothing removes a row that was found before, so that
a query need not end. -/
namespace Sql

variable {ρ : Type*} {next : ρ → List ρ}

/-- The rows of all rounds, where the last of them finds none. -/
def recursiveRows (next : ρ → List ρ) : Nat → List ρ → Option (List ρ)
  | 0, work => if work.isEmpty then some [] else none
  | rounds + 1, work => (recursiveRows next rounds (work.flatMap next)).map (work ++ ·)

theorem recursiveRows_nil (next : ρ → List ρ) (rounds : Nat) : recursiveRows next rounds [] = some [] := by
  induction rounds with
  | zero => rfl
  | succ rounds ih => rw [recursiveRows, List.flatMap_nil, ih, Option.map_some, List.append_nil]

theorem recursiveRows_closed {rounds : Nat} {work rows : List ρ}
    (h : recursiveRows next rounds work = some rows) : work ⊆ rows ∧ ∀ x ∈ rows, next x ⊆ rows := by
  induction rounds generalizing work rows with
  | zero =>
    rw [recursiveRows] at h
    split at h
    · next hEmpty =>
      rw [List.isEmpty_iff.mp hEmpty, ← Option.some.inj h]
      exact ⟨List.Subset.refl _, nofun⟩
    · cases h
  | succ rounds ih =>
    obtain ⟨rest, hRest, rfl⟩ := Option.map_eq_some_iff.mp h
    obtain ⟨hFound, hClosed⟩ := ih hRest
    refine ⟨List.subset_append_left _ _, fun x hx y hy => List.mem_append_right _ ?_⟩
    rcases List.mem_append.mp hx with hx | hx
    · exact hFound (List.mem_flatMap.mpr ⟨x, hx, hy⟩)
    · exact hClosed x hx hy

/-- A query ends where every round climbs in a bounded rank. -/
theorem recursiveRows_isSome (P : ρ → Prop) (rank : ρ → Nat) (bound : Nat) (hBound : ∀ x, P x → rank x ≤ bound)
    (hNext : ∀ x, P x → ∀ y ∈ next x, P y ∧ rank x < rank y) {rounds : Nat} {work : List ρ}
    (hWork : ∀ x ∈ work, P x ∧ bound < rank x + rounds) : (recursiveRows next rounds work).isSome := by
  induction rounds generalizing work with
  | zero =>
    cases work with
    | nil => rfl
    | cons x rest =>
      obtain ⟨hx, hRank⟩ := hWork x List.mem_cons_self
      exact absurd (hBound x hx) (Nat.not_le_of_lt hRank)
  | succ rounds ih =>
    rw [recursiveRows, Option.isSome_map]
    refine ih fun y hy => ?_
    obtain ⟨x, hx, hy⟩ := List.mem_flatMap.mp hy
    obtain ⟨hx, hRank⟩ := hWork x hx
    obtain ⟨hy, hClimbs⟩ := hNext x hx y hy
    exact ⟨hy, by omega⟩

end Sql
