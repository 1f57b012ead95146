import Mathlib

/-! # Patterns of `LIKE`

A pattern is a text in which `%` stands for any sequence, `_` for any character, and a character
after the escape character for itself. A pattern that ends with the escape character is an error. -/
namespace Sql

inductive Wildcard where
  | literal (c : Char)
  | one
  | any
  deriving DecidableEq, Repr

def readPattern (escape : Char) : List Char → Option (List Wildcard)
  | [] => some []
  | [c] => if c = escape then none else some [if c = '%' then .any else if c = '_' then .one else .literal c]
  | c :: d :: rest =>
    if c = escape then (readPattern escape rest).map (.literal d :: ·)
    else (readPattern escape (d :: rest)).map
      ((if c = '%' then .any else if c = '_' then .one else .literal c) :: ·)

def matchesPattern : List Wildcard → List Char → Bool
  | [], text => text.isEmpty
  | .literal c :: pattern, text => match text with
    | [] => false
    | d :: text => c == d && matchesPattern pattern text
  | .one :: pattern, text => match text with
    | [] => false
    | _ :: text => matchesPattern pattern text
  | .any :: pattern, text => text.tails.any (matchesPattern pattern)

/-- `text LIKE pattern ESCAPE escape`, false where the statement fails. -/
def like (escape : Char) (text pattern : List Char) : Bool :=
  ((readPattern escape pattern).map fun p => matchesPattern p text).getD false

section Prefix

variable {escape : Char}

theorem readPattern_escaped (c : Char) (rest : List Char) :
    readPattern escape (escape :: c :: rest) = (readPattern escape rest).map (.literal c :: ·) := by
  rw [readPattern, if_pos rfl]

theorem readPattern_plain {c : Char} (h : c ≠ escape ∧ c ≠ '%' ∧ c ≠ '_') (rest : List Char) :
    readPattern escape (c :: rest) = (readPattern escape rest).map (.literal c :: ·) := by
  cases rest with
  | nil => simp [readPattern, h]
  | cons d rest => simp [readPattern, h]

theorem matchesPattern_any (text : List Char) : matchesPattern [.any] text := by
  rw [matchesPattern, List.any_eq_true]
  exact ⟨[], (List.mem_tails [] text).mpr List.nil_suffix, rfl⟩

theorem matchesPattern_prefix (literals text : List Char) :
    matchesPattern (literals.map .literal ++ [.any]) text = literals.isPrefixOf text := by
  induction literals generalizing text with
  | nil => exact matchesPattern_any text
  | cons c literals ih =>
    cases text with
    | nil => rfl
    | cons d text =>
      rw [List.map_cons, List.cons_append, matchesPattern, List.isPrefixOf, ih]

end Prefix

end Sql
