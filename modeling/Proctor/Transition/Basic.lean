import Mathlib

/-! # Runs of a partial step function

A transition system is a step function that answers `none` where an action is not enabled. -/
namespace Transition

variable {σ α : Type*} {step : σ → α → Option σ}

/-- The second state is reached from the first by a run of enabled actions. -/
def Reaches (step : σ → α → Option σ) : σ → σ → Prop :=
  Relation.ReflTransGen fun s t => ∃ a, step s a = some t

theorem Reaches.refl (s : σ) : Reaches step s s := Relation.ReflTransGen.refl

theorem Reaches.head {s t u : σ} {a : α} (hStep : step s a = some t) (h : Reaches step t u) :
    Reaches step s u := Relation.ReflTransGen.head ⟨a, hStep⟩ h

theorem Reaches.invariant {P : σ → Prop} (hStep : ∀ s a t, P s → step s a = some t → P t) {s t : σ}
    (h : Reaches step s t) (hs : P s) : P t := by
  induction h with
  | refl => exact hs
  | tail _ hLast ih =>
    obtain ⟨a, hLast⟩ := hLast
    exact hStep _ a _ ih hLast

theorem reaches_of_foldlM {actions : List α} {s t : σ} (h : actions.foldlM step s = some t) :
    Reaches step s t := by
  induction actions generalizing s with
  | nil => exact Option.some.inj h ▸ .refl s
  | cons a rest ih =>
    rw [List.foldlM_cons] at h
    obtain ⟨next, hNext, hRest⟩ := Option.bind_eq_some_iff.mp h
    exact .head hNext (ih hRest)

end Transition
