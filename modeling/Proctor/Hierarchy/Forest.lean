import Mathlib

/-! # Forests of parent links

Nodes with at most one parent, and no cycle: a depth decreases along every link. The chain of a node
is the node, its parent, and so on, as far as there are nodes. -/
namespace Hierarchy

variable {ι ν : Type*}

structure Forest (ι ν : Type*) where
  node : ι → Option ν
  parent : ν → Option ι
  depth : ι → Nat
  climbs : ∀ i n p, node i = some n → parent n = some p → depth p < depth i

namespace Forest

@[grind] def chainWithin (f : Forest ι ν) : Nat → ι → List ι
  | 0, _ => []
  | fuel + 1, i => match f.node i with
    | none => []
    | some n => i :: match f.parent n with
      | none => []
      | some p => chainWithin f fuel p

def chain (f : Forest ι ν) (i : ι) : List ι := f.chainWithin (f.depth i + 1) i

variable {f : Forest ι ν} {i j k p : ι} {n : ν}

theorem chainWithin_eq (fuel fuel' : Nat) (i : ι) (hFuel : f.depth i < fuel) (hFuel' : f.depth i < fuel') :
    f.chainWithin fuel i = f.chainWithin fuel' i := by
  induction fuel generalizing fuel' i with
  | zero => omega
  | succ fuel ih =>
    cases fuel' with
    | zero => omega
    | succ fuel' =>
      rw [chainWithin, chainWithin]
      cases hNode : f.node i with
      | none => rfl
      | some n =>
        dsimp only
        cases hPar : f.parent n with
        | none => rfl
        | some p =>
          have hClimbs := f.climbs i n p hNode hPar
          dsimp only
          rw [ih fuel' p (by omega) (by omega)]

theorem chain_of_none (hNode : f.node i = none) : f.chain i = [] := by
  rw [chain, chainWithin, hNode]

theorem chain_of_root (hNode : f.node i = some n) (hPar : f.parent n = none) : f.chain i = [i] := by
  rw [chain, chainWithin]
  simp only [hNode, hPar]

theorem chain_of_parent (hNode : f.node i = some n) (hPar : f.parent n = some p) :
    f.chain i = i :: f.chain p := by
  have hClimbs := f.climbs i n p hNode hPar
  unfold chain
  rw [chainWithin]
  simp only [hNode, hPar]
  rw [chainWithin_eq _ (f.depth p + 1) p hClimbs (by omega)]

theorem induction {P : ι → Prop}
    (hStep : ∀ i, (∀ n p, f.node i = some n → f.parent n = some p → P p) → P i) (i : ι) : P i := by
  suffices hBelow : ∀ bound i, f.depth i < bound → P i from hBelow (f.depth i + 1) i (by omega)
  intro bound
  induction bound with
  | zero => omega
  | succ bound ih =>
    intro i hi
    refine hStep i fun n p hNode hPar => ih p ?_
    have hClimbs := f.climbs i n p hNode hPar
    omega

theorem mem_chain_iff : j ∈ f.chain i ↔ ∃ n, f.node i = some n ∧
    (j = i ∨ ∃ p, f.parent n = some p ∧ j ∈ f.chain p) := by
  cases hNode : f.node i with
  | none => simp [chain_of_none hNode]
  | some n =>
    cases hPar : f.parent n with
    | none => simp [chain_of_root hNode hPar, hPar]
    | some p => simp [chain_of_parent hNode hPar, hPar]

theorem self_mem_chain (hNode : f.node i = some n) : i ∈ f.chain i :=
  mem_chain_iff.mpr ⟨n, hNode, .inl rfl⟩

theorem node_of_mem_chain (h : j ∈ f.chain i) : ∃ n, f.node j = some n := by
  induction i using induction (f := f) with
  | hStep i ih =>
    obtain ⟨n, hNode, rfl | ⟨p, hPar, hp⟩⟩ := mem_chain_iff.mp h
    · exact ⟨n, hNode⟩
    · exact ih n p hNode hPar hp

theorem mem_chain_trans (hk : k ∈ f.chain j) (hj : j ∈ f.chain i) : k ∈ f.chain i := by
  induction i using induction (f := f) with
  | hStep i ih =>
    obtain ⟨n, hNode, rfl | ⟨p, hPar, hp⟩⟩ := mem_chain_iff.mp hj
    · exact hk
    · exact mem_chain_iff.mpr ⟨n, hNode, .inr ⟨p, hPar, ih n p hNode hPar hp⟩⟩

theorem depth_le_of_mem_chain (h : j ∈ f.chain i) : f.depth j ≤ f.depth i := by
  induction i using induction (f := f) with
  | hStep i ih =>
    obtain ⟨n, hNode, rfl | ⟨p, hPar, hp⟩⟩ := mem_chain_iff.mp h
    · exact Nat.le_refl _
    · exact Nat.le_trans (ih n p hNode hPar hp) (Nat.le_of_lt (f.climbs i n p hNode hPar))

theorem chain_nodup (f : Forest ι ν) (i : ι) : (f.chain i).Nodup := by
  induction i using induction (f := f) with
  | hStep i ih =>
    cases hNode : f.node i with
    | none => simp [chain_of_none hNode]
    | some n =>
      cases hPar : f.parent n with
      | none => simp [chain_of_root hNode hPar]
      | some p =>
        rw [chain_of_parent hNode hPar]
        refine List.nodup_cons.mpr ⟨fun hMem => ?_, ih n p hNode hPar⟩
        exact Nat.lt_irrefl _ (Nat.lt_of_le_of_lt (depth_le_of_mem_chain hMem) (f.climbs i n p hNode hPar))

end Forest

end Hierarchy
