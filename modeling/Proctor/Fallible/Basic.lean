import Mathlib

/-! # Sequences of fallible steps

A computation in `Except` that ends well went well at each of its steps. -/
namespace Fallible

variable {ε α β : Type} {next : α → Except ε β} {value : Except ε α}

theorem bind_ok_iff {b : β} : value >>= next = .ok b ↔ ∃ a, value = .ok a ∧ next a = .ok b := by
  cases value with
  | error fault => simp [Bind.bind, Except.bind]
  | ok a => simp [Bind.bind, Except.bind]

theorem pure_ok_iff {a b : α} : (pure a : Except ε α) = .ok b ↔ a = b := by
  simp [Pure.pure, Except.pure]

theorem guard_ok_iff {refused : Prop} [Decidable refused] {fault : ε} {rest : Except ε α} {a : α} :
    (if refused then .error fault else rest) = .ok a ↔ ¬refused ∧ rest = .ok a := by
  by_cases hRefused : refused <;> simp [hRefused]

theorem bind_ok {b : β} (h : value >>= next = .ok b) : ∃ a, value = .ok a ∧ next a = .ok b :=
  bind_ok_iff.mp h

theorem pure_ok {a b : α} (h : (pure a : Except ε α) = .ok b) : a = b :=
  pure_ok_iff.mp h

theorem bind_pure_ok {f : α → β} {b : β} (h : (value >>= fun a => pure (f a)) = .ok b) :
    ∃ a, value = .ok a ∧ f a = b := by
  obtain ⟨a, hValue, hPure⟩ := bind_ok h
  exact ⟨a, hValue, pure_ok hPure⟩

section Guard

variable {refused : Prop} [Decidable refused] {fault : ε} {rest : Except ε α} {a : α}

variable (h : (if refused then .error fault else rest) = .ok a)
include h

theorem guard_ok : ¬refused ∧ rest = .ok a :=
  guard_ok_iff.mp h

theorem past_guard : rest = .ok a :=
  (guard_ok h).2

end Guard

theorem forM_ok {check : α → Except ε Unit} {xs : List α} {u : Unit} (hAll : xs.forM check = .ok u) :
    ∀ x ∈ xs, check x = .ok () := by
  induction xs with
  | nil => nofun
  | cons x rest ih =>
    obtain ⟨_, hFirst, hRest⟩ := bind_ok_iff.mp hAll
    exact List.forall_mem_cons.mpr ⟨hFirst, ih hRest⟩

theorem mapM_ok {read : α → Except ε β} (result : α → β) {xs : List α}
    (hRead : ∀ x ∈ xs, read x = .ok (result x)) : xs.mapM read = .ok (xs.map result) := by
  induction xs with
  | nil => rfl
  | cons x rest ih =>
    obtain ⟨hFirst, hRest⟩ := List.forall_mem_cons.mp hRead
    rw [List.mapM_cons, hFirst, ih hRest]
    rfl

variable {step : α → β → Except ε α}

/-- A loop stays within every reflexive and transitive relation that its steps keep to,
each from a state that the relation preserves. -/
theorem foldlM_rel {R : α → α → Prop} {I : α → Prop}
    (hRefl : ∀ a, R a a) (hTrans : ∀ a b c, R a b → R b c → R a c)
    (hKeeps : ∀ a b, R a b → I a → I b) (hStep : ∀ a b x, I a → step a x = .ok b → R a b)
    {xs : List β} {a b : α} (hStart : I a) (hFold : xs.foldlM step a = .ok b) : R a b := by
  induction xs generalizing a with
  | nil => exact pure_ok_iff.mp hFold ▸ hRefl a
  | cons x rest ih =>
    obtain ⟨next, hNext, hRest⟩ := bind_ok_iff.mp hFold
    have hFirst := hStep a next x hStart hNext
    exact hTrans a next b hFirst (ih (hKeeps a next hFirst hStart) hRest)

/-! ## Faults that cannot happen -/

def Avoids (fault : ε) (value : Except ε α) : Prop :=
  value ≠ .error fault

variable {fault : ε}

@[simp] theorem avoids_ok (a : α) : Avoids fault (.ok a) :=
  nofun

@[simp] theorem avoids_pure (a : α) : Avoids fault (pure a : Except ε α) :=
  nofun

@[simp] theorem avoids_error_iff {other : ε} :
    Avoids fault (.error other : Except ε α) ↔ other ≠ fault := by
  simp [Avoids]

@[simp] theorem avoids_ite_iff {c : Prop} [Decidable c] {yes no : Except ε α} :
    Avoids fault (if c then yes else no) ↔ (c → Avoids fault yes) ∧ (¬c → Avoids fault no) := by
  by_cases hc : c <;> simp [hc]

@[simp] theorem avoids_bind_iff : Avoids fault (value >>= next) ↔
      Avoids fault value ∧ ∀ a, value = .ok a → Avoids fault (next a) := by
  cases value with
  | error other => simp [Avoids, Bind.bind, Except.bind]
  | ok a => simp [Bind.bind, Except.bind]

@[simp] theorem avoids_map_iff {f : α → β} : Avoids fault (f <$> value) ↔ Avoids fault value := by
  cases value <;> simp [Avoids, Functor.map, Except.map]

theorem Avoids.bind (hValue : Avoids fault value)
    (hNext : ∀ a, value = .ok a → Avoids fault (next a)) : Avoids fault (value >>= next) :=
  avoids_bind_iff.mpr ⟨hValue, hNext⟩

theorem avoids_foldlM (hStep : ∀ a x, Avoids fault (step a x))
    (xs : List β) (a : α) : Avoids fault (xs.foldlM step a) := by
  induction xs generalizing a with
  | nil => exact avoids_pure a
  | cons x rest ih => exact (hStep a x).bind fun next _ => ih next

end Fallible
