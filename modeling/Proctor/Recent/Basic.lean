import Mathlib

/-! # The most recent entries of a growing history

A component that keeps the last `limit` entries of a history stores `history.rtake limit`. An entry
is appended either after the front has been evicted from a full store or before the surplus is
trimmed; both give the recent entries of the longer history. -/
namespace Recent

open List

variable {α : Type*}

theorem length_rtake (l : List α) (n : Nat) : (l.rtake n).length = min n l.length := by
  rw [List.rtake, length_drop]
  omega

theorem rtake_suffix (l : List α) (n : Nat) : l.rtake n <:+ l := drop_suffix _ _

variable {l history : List α} {n limit : Nat}

theorem rtake_of_length_le (h : l.length ≤ n) : l.rtake n = l := by
  rw [List.rtake, Nat.sub_eq_zero_of_le h, drop_zero]

theorem drop_one_rtake (h : n < l.length) : (l.rtake (n + 1)).drop 1 = l.rtake n := by
  rw [List.rtake, List.rtake, drop_drop]
  congr 1
  omega

theorem evict_append (hLimit : 0 < limit) (x : α) :
    (history.rtake limit).drop (if (history.rtake limit).length = limit then 1 else 0) ++ [x] =
      (history ++ [x]).rtake limit := by
  obtain ⟨n, rfl⟩ : ∃ n, limit = n + 1 := ⟨limit - 1, by omega⟩
  rw [rtake_concat_succ]
  congr 1
  rcases Nat.lt_or_ge n history.length with hLong | hShort
  · have hFull : (history.rtake (n + 1)).length = n + 1 := by
      rw [length_rtake]
      omega
    rw [if_pos hFull, drop_one_rtake hLong]
  · have hRoom : ¬(history.rtake (n + 1)).length = n + 1 := by
      rw [length_rtake]
      omega
    rw [if_neg hRoom, drop_zero, rtake_of_length_le hShort, rtake_of_length_le (by omega)]

theorem append_trim (hLimit : 0 < limit) (x : α) :
    (history.rtake limit ++ [x]).rtake limit = (history ++ [x]).rtake limit := by
  obtain ⟨n, rfl⟩ : ∃ n, limit = n + 1 := ⟨limit - 1, by omega⟩
  rw [rtake_concat_succ, rtake_concat_succ]
  congr 1
  rw [List.rtake, length_rtake, List.rtake, List.rtake, drop_drop]
  congr 1
  omega

/-! ## Numbered entries -/

/-- The entries carry consecutive numbers from `first` on. -/
def Numbered (number : α → Nat) (first : Nat) (l : List α) : Prop := l.map number = List.range' first l.length

variable {number : α → Nat} {first : Nat}

theorem numbered_nil : Numbered number first [] := rfl

theorem numbered_cons {x : α} :
    Numbered number first (x :: l) ↔ number x = first ∧ Numbered number (first + 1) l := by
  rw [Numbered, map_cons, length_cons, range'_succ, List.cons.injEq]
  rfl

section

variable (h : Numbered number first l)
include h

theorem Numbered.append {more : List α}
    (hMore : Numbered number (first + l.length) more) : Numbered number first (l ++ more) := by
  rw [Numbered, map_append, h, hMore, length_append, ← range'_append_1]

theorem Numbered.bounds {x : α} (hx : x ∈ l) : first ≤ number x ∧ number x < first + l.length := by
  have hIn : number x ∈ List.range' first l.length := h ▸ mem_map_of_mem hx
  exact mem_range'_1.mp hIn

theorem Numbered.number_of_getElem? {i : Nat} {x : α} (hx : l[i]? = some x) : number x = first + i := by
  have hNumber : (l.map number)[i]? = some (number x) := by rw [getElem?_map, hx, Option.map_some]
  rw [h] at hNumber
  obtain ⟨_, hEq⟩ := List.getElem?_eq_some_iff.mp hNumber
  rw [← hEq, getElem_range', Nat.one_mul]

theorem Numbered.drop (n : Nat) : Numbered number (first + n) (l.drop n) := by
  rw [Numbered, map_drop, h, drop_range', length_drop, Nat.mul_one]

theorem Numbered.take (n : Nat) : Numbered number first (l.take n) := by
  induction l generalizing first n with
  | nil =>
    rw [take_nil]
    exact numbered_nil
  | cons x l ih =>
    obtain ⟨hFirst, hRest⟩ := numbered_cons.mp h
    cases n with
    | zero => exact numbered_nil
    | succ n => exact numbered_cons.mpr ⟨hFirst, ih hRest n⟩

theorem Numbered.getLast? (hSome : l ≠ []) :
    ∃ x, l.getLast? = some x ∧ number x + 1 = first + l.length := by
  have hLen := length_pos_iff.mpr hSome
  refine ⟨l.getLast hSome, getLast?_eq_some_getLast hSome, ?_⟩
  have hLast : (l.map number).getLast? = some (number (l.getLast hSome)) := by
    rw [getLast?_map, getLast?_eq_some_getLast hSome, Option.map_some]
  rw [h, getLast?_range', if_neg (by omega)] at hLast
  have := Option.some.inj hLast
  omega

theorem Numbered.filter_lt (n : Nat) : l.filter (fun x => n < number x) = l.drop (n + 1 - first) := by
  induction l generalizing first with
  | nil => simp
  | cons x l ih =>
    obtain ⟨rfl, hRest⟩ := numbered_cons.mp h
    rw [filter_cons]
    split
    · next hLess =>
      have hLess := of_decide_eq_true hLess
      have hAll : l.filter (fun y => n < number y) = l :=
        filter_eq_self.mpr fun y hy => decide_eq_true (by have := (hRest.bounds hy).1; omega)
      rw [hAll, show n + 1 - number x = 0 by omega, drop_zero]
    · next hMore =>
      have hMore : ¬n < number x := fun hLess => hMore (decide_eq_true hLess)
      rw [ih hRest, show n + 1 - number x = (n + 1 - (number x + 1)) + 1 by omega, drop_succ_cons]

theorem Numbered.pairwise : l.Pairwise fun a b => number a ≤ number b := by
  have hRange : (l.map number).Pairwise (· ≤ ·) := h ▸ (pairwise_lt_range' 1 Nat.one_pos).imp le_of_lt
  exact pairwise_map.mp hRange

theorem Numbered.min? (hSome : l ≠ []) : (l.map number).min? = some first := by
  rw [min?_eq_some_iff]
  cases l with
  | nil => exact absurd rfl hSome
  | cons x l =>
    obtain ⟨rfl, -⟩ := numbered_cons.mp h
    refine ⟨mem_cons_self, fun n hn => ?_⟩
    obtain ⟨y, hy, rfl⟩ := mem_map.mp hn
    exact (h.bounds hy).1

end

end Recent
