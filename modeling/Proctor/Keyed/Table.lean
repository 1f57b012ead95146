import Mathlib

/-! # Tables with a primary key

Rows in insertion order, no two of them with the same key. Every operation keeps the keys that are
there, so that a row is found by its key whatever was updated around it. -/
namespace Keyed

open List

variable {κ ρ : Type*} {key : ρ → κ}

structure Table (key : ρ → κ) where
  rows : List ρ
  distinct : (rows.map key).Nodup
  deriving DecidableEq

namespace Table

def empty : Table key := ⟨[], List.nodup_nil⟩

def mapRows (t : Table key) (f : ρ → ρ) (hKey : ∀ r, key (f r) = key r) : Table key :=
  ⟨t.rows.map f, by
    have hSame : key ∘ f = key := funext hKey
    rw [List.map_map, hSame]
    exact t.distinct⟩

theorem filter_mapRows (t : Table key) {f : ρ → ρ} (hKey : ∀ r, key (f r) = key r) {p : ρ → Bool}
    (hSame : ∀ r ∈ t.rows, p (f r) = p r) :
    (t.mapRows f hKey).rows.filter p = (t.rows.filter p).map f := by
  simp only [mapRows, filter_map]
  congr 1
  exact filter_congr fun r hr => hSame r hr

theorem nodup_filter (t : Table key) (p : ρ → Bool) : ((t.rows.filter p).map key).Nodup :=
  t.distinct.sublist (filter_sublist.map key)

def keep (t : Table key) (p : ρ → Bool) : Table key := ⟨t.rows.filter p, t.nodup_filter p⟩

variable [DecidableEq κ]

def find (t : Table key) (k : κ) : Option ρ := t.rows.find? fun r => decide (key r = k)

/-- `none` where the key is taken. -/
def insert (t : Table key) (r : ρ) : Option (Table key) :=
  if hTaken : key r ∈ t.rows.map key then none
  else some ⟨t.rows ++ [r], by
    rw [List.map_append, List.map_singleton]
    exact List.nodup_append.mpr ⟨t.distinct, List.nodup_singleton _, fun a ha b hb hEq =>
      hTaken (by rwa [List.mem_singleton.mp hb, ← hEq] at *)⟩⟩

/-- Replace the row that has the key of `r`. -/
def set (t : Table key) (r : ρ) : Table key :=
  t.mapRows (fun x => if key x = key r then r else x) fun x => by
    split
    · next h => exact h.symm
    · rfl

variable {r old : ρ} {t t' : Table key}

theorem find_eq_some_iff {k : κ} : t.find k = some r ↔ r ∈ t.rows ∧ key r = k := by
  constructor
  · intro h
    have hKey := find?_some h
    exact ⟨mem_of_find?_eq_some h, of_decide_eq_true hKey⟩
  rintro ⟨hMem, rfl⟩
  cases hFind : t.find (key r) with
  | none => exact absurd (decide_eq_true rfl) (find?_eq_none.mp hFind r hMem)
  | some x =>
    have hKey := find?_some hFind
    exact congrArg some (inj_on_of_nodup_map t.distinct (mem_of_find?_eq_some hFind) hMem
      (of_decide_eq_true hKey))

theorem find_eq_none_iff {k : κ} : t.find k = none ↔ ∀ r ∈ t.rows, key r ≠ k := by
  rw [find, find?_eq_none]
  simp only [decide_eq_true_eq, ne_eq]

theorem filter_key (t : Table key) (k : κ) (p : ρ → Bool) :
    t.rows.filter (fun r => decide (key r = k) && p r) = ((t.find k).filter p).toList := by
  obtain ⟨rows, hDist⟩ := t
  change rows.filter _ = ((rows.find? fun r => decide (key r = k)).filter p).toList
  induction rows with
  | nil => rfl
  | cons r rest ih =>
    rw [map_cons, nodup_cons] at hDist
    by_cases hKey : key r = k
    · have hRest : rest.filter (fun r => decide (key r = k) && p r) = [] := by
        refine filter_eq_nil_iff.mpr fun x hx hp => hDist.1 ?_
        rw [hKey, ← of_decide_eq_true (Bool.and_eq_true_iff.mp hp).1]
        exact mem_map_of_mem hx
      cases hp : p r <;> simp [hKey, hp, hRest, Option.filter]
    · rw [filter_cons_of_neg (by simp [hKey]), find?_cons_of_neg (by simp [hKey]), ih hDist.2]

theorem find_mapRows (t : Table key) {f : ρ → ρ} (hKey : ∀ r, key (f r) = key r) (k : κ) :
    (t.mapRows f hKey).find k = (t.find k).map f := by
  simp only [find, mapRows, find?_map, Function.comp_def, hKey]

theorem find_keep (t : Table key) (p : ρ → Bool) (k : κ) : (t.keep p).find k = (t.find k).filter p := by
  cases hFind : t.find k with
  | none =>
    refine find_eq_none_iff.mpr fun r hr => ?_
    exact find_eq_none_iff.mp hFind r (mem_of_mem_filter hr)
  | some r =>
    obtain ⟨hMem, rfl⟩ := find_eq_some_iff.mp hFind
    cases hp : p r with
    | true =>
      rw [Option.filter_some, if_pos hp]
      exact find_eq_some_iff.mpr ⟨mem_filter.mpr ⟨hMem, hp⟩, rfl⟩
    | false =>
      rw [Option.filter_some, if_neg (by simp [hp])]
      refine find_eq_none_iff.mpr fun x hx hEq => ?_
      obtain ⟨hIn, hx⟩ := mem_filter.mp hx
      rw [inj_on_of_nodup_map t.distinct hIn hMem hEq, hp] at hx
      cases hx

theorem find_set (t : Table key) (r : ρ) (k : κ) :
    (t.set r).find k = if k = key r then (t.find k).map fun _ => r else t.find k := by
  rw [set, find_mapRows]
  cases hFind : t.find k with
  | none => simp
  | some x =>
    obtain ⟨-, rfl⟩ := find_eq_some_iff.mp hFind
    by_cases hKey : key x = key r <;> simp [hKey]

theorem find_set_self (hOld : t.find (key r) = some old) : (t.set r).find (key r) = some r := by
  rw [find_set, if_pos rfl, hOld, Option.map_some]

theorem find_set_of_some (hOld : t.find (key r) = some old) (k : κ) :
    (t.set r).find k = if k = key r then some r else t.find k := by
  rw [find_set]
  split
  · next hKey => rw [hKey, hOld, Option.map_some]
  · rfl

theorem find_set_of_ne {k : κ} (hNe : k ≠ key r) : (t.set r).find k = t.find k := by
  rw [find_set, if_neg hNe]

section

variable {x : ρ} (hOld : t.find (key r) = some old)
include hOld

theorem mem_set :
    x ∈ (t.set r).rows ↔ x = r ∨ x ∈ t.rows ∧ key x ≠ key r := by
  constructor
  · intro hx
    obtain ⟨y, hy, rfl⟩ := mem_map.mp hx
    split
    · exact .inl rfl
    · next hNe => exact .inr ⟨hy, hNe⟩
  · rintro (rfl | ⟨hx, hNe⟩)
    · exact (find_eq_some_iff.mp (find_set_self hOld)).1
    · exact mem_map.mpr ⟨x, hx, if_neg hNe⟩

theorem filter_set {p : ρ → Bool} (hSame : p r = p old) :
    (t.set r).rows.filter p = (t.rows.filter p).map fun x => if key x = key r then r else x := by
  unfold set
  rw [filter_mapRows]
  intro x hx
  by_cases hKey : key x = key r
  · have hFind : t.find (key r) = some x := find_eq_some_iff.mpr ⟨hx, hKey⟩
    rw [if_pos hKey, hSame, Option.some.inj (hOld.symm.trans hFind)]
  · rw [if_neg hKey]

theorem sum_map_set (f : ρ → Nat) :
    ((t.set r).rows.map f).sum + f old = (t.rows.map f).sum + f r := by
  obtain ⟨hMem, hKey⟩ := find_eq_some_iff.mp hOld
  obtain ⟨front, rest, hRows⟩ := append_of_mem hMem
  have hDist := t.distinct
  rw [hRows, map_append, map_cons, nodup_middle, nodup_cons, ← map_append] at hDist
  have hOther : ∀ l : List ρ, (∀ x ∈ l, x ∈ front ++ rest) →
      l.map (fun x => if key x = key r then r else x) = l := by
    intro l hl
    conv_rhs => rw [← map_id l]
    refine map_congr_left fun x hx => ?_
    rw [if_neg, id]
    intro hSame
    rw [hKey, ← hSame] at hDist
    exact hDist.1 (mem_map_of_mem (hl x hx))
  change ((t.rows.map fun x => if key x = key r then r else x).map f).sum + _ = _
  rw [hRows, map_append, map_cons, if_pos hKey, hOther front fun x hx => mem_append_left _ hx,
    hOther rest fun x hx => mem_append_right _ hx]
  simp only [map_append, map_cons, sum_append, sum_cons]
  omega

end

theorem insert_eq_some (h : t.insert r = some t') :
    t.find (key r) = none ∧ t'.rows = t.rows ++ [r] := by
  unfold insert at h
  split at h
  · cases h
  next hFree =>
  injection h with h
  subst h
  exact ⟨find_eq_none_iff.mpr fun x hx hEq => hFree (hEq ▸ mem_map_of_mem hx), rfl⟩

theorem mem_insert {x : ρ} (h : t.insert r = some t') : x ∈ t'.rows ↔ x ∈ t.rows ∨ x = r := by
  rw [(insert_eq_some h).2, mem_append, mem_singleton]

theorem find_insert (h : t.insert r = some t') (k : κ) :
    t'.find k = if k = key r then some r else t.find k := by
  obtain ⟨hFree, hRows⟩ := insert_eq_some h
  unfold find
  rw [hRows, find?_append]
  by_cases hKey : k = key r
  · subst hKey
    unfold find at hFree
    rw [hFree, if_pos rfl]
    simp
  · rw [if_neg hKey]
    have hNot : ¬key r = k := fun hEq => hKey hEq.symm
    simp [hNot]

end Table

variable [DecidableEq κ]

theorem map_replace_last {front : List ρ} {last new : ρ}
    (hDist : ((front ++ [last]).map key).Nodup) (hKey : key new = key last) :
    (front ++ [last]).map (fun x => if key x = key new then new else x) = front ++ [new] := by
  rw [map_append, map_singleton, if_pos hKey.symm]
  congr 1
  rw [map_append, map_singleton] at hDist
  have hApart := (nodup_append.mp hDist).2.2
  conv_rhs => rw [← map_id front]
  refine map_congr_left fun x hx => ?_
  rw [if_neg, id]
  rw [hKey]
  exact hApart _ (mem_map_of_mem hx) _ mem_cons_self

end Keyed
