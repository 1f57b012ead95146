import Proctor.Sql.Like
import Proctor.Values.Basic

/-! # Workspace paths

Model of `NormalizeStarterWorkspacePath` and of the ways in which the store takes a path apart: the
parent up to the last slash, the descendants by prefix or by an escaped pattern, and the new path of
a moved entry. -/
namespace Proctor.Workspace

open Json (size)
open List

def validSegment (segment : Text) : Bool :=
  segment ≠ [] && segment ≠ ['.'] && segment ≠ ['.', '.'] && size segment ≤ 255 && !segment.any isControl

/-- `NormalizeStarterWorkspacePath` accepts canonical paths only. -/
def normalizePath (value : Text) : Option Text :=
  if value = [] || 1024 < size value || value.head? = some '/' || value.getLast? = some '/' ||
      value.contains '\\' then none
  else
    let segments := value.splitOn '/'
    if 16 < segments.length || segments.head? = some ".proctor".toList then none
    else if segments.all validSegment then some value
    else none

def parentPath (path : Text) : Option Text :=
  if '/' ∈ path then some (path.rdropWhile (· ≠ '/')).dropLast else none

def escapeLike (value : Text) : Text :=
  ((value.flatMap fun c => if c = '!' then ['!', '!'] else [c]).flatMap
    fun c => if c = '%' then ['!', '%'] else [c]).flatMap
      fun c => if c = '_' then ['!', '_'] else [c]

/-- `path LIKE escapeLike(root)/% ESCAPE '!'`. -/
def descendantLike (root path : Text) : Bool := Sql.like '!' path (escapeLike root ++ ['/', '%'])

/-- `strings.HasPrefix(path, root+"/")`. -/
def below (root path : Text) : Bool := (root ++ ['/']).isPrefixOf path

def inSubtree (root path : Text) : Bool := path = root || below root path

/-- `destination + strings.TrimPrefix(path, root)`, for a path that begins with `root`. -/
def movedPath (root destination path : Text) : Text := destination ++ path.drop root.length

/-! ## Patterns -/

theorem escapeLike_cons (c : Char) (value : Text) : escapeLike (c :: value) =
    (if c = '!' ∨ c = '%' ∨ c = '_' then ['!', c] else [c]) ++ escapeLike value := by
  by_cases hEscape : c = '!'
  · subst hEscape
    simp [escapeLike]
  by_cases hAny : c = '%'
  · subst hAny
    simp [escapeLike]
  by_cases hOne : c = '_'
  · subst hOne
    simp [escapeLike]
  simp [escapeLike, hEscape, hAny, hOne]

theorem readPattern_escapeLike (value rest : Text) : Sql.readPattern '!' (escapeLike value ++ rest) =
    (Sql.readPattern '!' rest).map (value.map .literal ++ ·) := by
  induction value with
  | nil => simp [escapeLike]
  | cons c value ih =>
    rw [escapeLike_cons]
    split
    · simp only [cons_append, nil_append]
      rw [Sql.readPattern_escaped, ih, Option.map_map]
      rfl
    next hPlain =>
    simp only [not_or] at hPlain
    simp only [cons_append, nil_append]
    rw [Sql.readPattern_plain hPlain, ih, Option.map_map]
    rfl

theorem descendantLike_eq (root path : Text) : descendantLike root path = below root path := by
  have hRest : Sql.readPattern '!' ['/', '%'] = some [.literal '/', .any] := by decide
  rw [descendantLike, Sql.like, readPattern_escapeLike, hRest]
  have hPattern := Sql.matchesPattern_prefix (root ++ ['/']) path
  rw [map_append] at hPattern
  simp only [map_cons, map_nil, append_assoc, cons_append, nil_append] at hPattern
  simp only [Option.map_some, Option.getD_some]
  rw [hPattern]
  rfl

/-! ## Prefixes -/

variable {path root destination parent : Text}

theorem below_iff : below root path ↔ ∃ rest, path = root ++ '/' :: rest := by
  rw [below, List.isPrefixOf_iff_prefix]
  constructor
  · rintro ⟨rest, rfl⟩
    exact ⟨rest, by simp⟩
  · rintro ⟨rest, rfl⟩
    exact ⟨rest, by simp⟩

def Tail (tail : Text) : Prop := tail = [] ∨ ∃ rest, tail = '/' :: rest

theorem inSubtree_iff : inSubtree root path ↔ ∃ tail, Tail tail ∧ path = root ++ tail := by
  rw [inSubtree, Bool.or_eq_true, decide_eq_true_eq, below_iff]
  constructor
  · rintro (rfl | ⟨rest, rfl⟩)
    · exact ⟨[], .inl rfl, (append_nil _).symm⟩
    · exact ⟨'/' :: rest, .inr ⟨rest, rfl⟩, rfl⟩
  · rintro ⟨tail, rfl | ⟨rest, rfl⟩, rfl⟩
    · exact .inl (append_nil _)
    · exact .inr ⟨rest, rfl⟩

theorem movedPath_append (root destination tail : Text) :
    movedPath root destination (root ++ tail) = destination ++ tail := by
  rw [movedPath, drop_left]

theorem movedPath_injective {a b : Text} (ha : inSubtree root a)
    (hb : inSubtree root b) (h : movedPath root destination a = movedPath root destination b) :
    a = b := by
  obtain ⟨s, -, rfl⟩ := inSubtree_iff.mp ha
  obtain ⟨t, -, rfl⟩ := inSubtree_iff.mp hb
  rw [movedPath_append, movedPath_append] at h
  rw [append_cancel_left h]

theorem below_of_movedPath (hPath : inSubtree root path)
    (hMoved : inSubtree root (movedPath root destination path)) :
    destination = root ∨ below root destination = true ∨ below destination root := by
  obtain ⟨t, ht, rfl⟩ := inSubtree_iff.mp hPath
  rw [movedPath_append] at hMoved
  obtain ⟨s, hs, hSame⟩ := inSubtree_iff.mp hMoved
  rcases append_eq_append_iff.mp hSame with ⟨u, rfl, rfl⟩ | ⟨u, rfl, rfl⟩
  · cases u with
    | nil => exact .inl (append_nil _).symm
    | cons c u =>
      rcases ht with hNil | ⟨rest, hRest⟩
      · cases hNil
      · obtain ⟨rfl, -⟩ := List.cons.inj hRest
        exact .inr (.inr (below_iff.mpr ⟨u, rfl⟩))
  · cases u with
    | nil => exact .inl (append_nil _)
    | cons c u =>
      rcases hs with hNil | ⟨rest, hRest⟩
      · cases hNil
      · obtain ⟨rfl, -⟩ := List.cons.inj hRest
        exact .inr (.inl (below_iff.mpr ⟨u, rfl⟩))

/-! ## Parents -/

theorem exists_last_slash (h : '/' ∈ path) :
    ∃ before name, '/' ∉ name ∧ path = before ++ '/' :: name := by
  induction path using List.reverseRecOn with
  | nil => cases h
  | append_singleton front c ih =>
    by_cases hSlash : c = '/'
    · exact ⟨front, [], nofun, by rw [hSlash]⟩
    have hFront : '/' ∈ front := by
      rcases mem_append.mp h with hIn | hLast
      · exact hIn
      · exact absurd (mem_singleton.mp hLast).symm hSlash
    obtain ⟨before, name, hName, rfl⟩ := ih hFront
    refine ⟨before, name ++ [c], fun hIn => ?_, by simp⟩
    rcases mem_append.mp hIn with hIn | hLast
    · exact hName hIn
    · exact hSlash (mem_singleton.mp hLast).symm

theorem parentPath_append {name : Text} (before : Text) (h : '/' ∉ name) :
    parentPath (before ++ '/' :: name) = some before := by
  have hCut : (before ++ '/' :: name).rdropWhile (· ≠ '/') = before ++ ['/'] := by
    induction name using List.reverseRecOn with
    | nil => exact rdropWhile_concat_neg _ _ _ (by simp)
    | append_singleton front c ih =>
      have hc : c ≠ '/' := fun hSlash => h (by simp [hSlash])
      rw [show before ++ '/' :: (front ++ [c]) = (before ++ '/' :: front) ++ [c] by simp,
        rdropWhile_concat_pos _ _ _ (by simpa using hc)]
      exact ih fun hIn => h (mem_append_left _ hIn)
  rw [parentPath, if_pos (by simp), hCut, dropLast_concat]

theorem parentPath_eq_some (h : parentPath path = some parent) :
    ∃ name, '/' ∉ name ∧ path = parent ++ '/' :: name := by
  have hSlash : '/' ∈ path := by
    by_contra hNone
    rw [parentPath, if_neg hNone] at h
    cases h
  obtain ⟨before, name, hName, rfl⟩ := exists_last_slash hSlash
  rw [parentPath_append before hName] at h
  exact ⟨name, hName, by rw [Option.some.inj h]⟩

theorem parentPath_of_below (h : below root path) :
    ∃ parent, parentPath path = some parent ∧ inSubtree root parent := by
  obtain ⟨rest, rfl⟩ := below_iff.mp h
  by_cases hRest : '/' ∈ rest
  · obtain ⟨before, name, hName, rfl⟩ := exists_last_slash hRest
    refine ⟨root ++ '/' :: before, ?_, inSubtree_iff.mpr ⟨'/' :: before, .inr ⟨before, rfl⟩, rfl⟩⟩
    rw [show root ++ '/' :: (before ++ '/' :: name) = (root ++ '/' :: before) ++ '/' :: name by simp,
      parentPath_append _ hName]
  · exact ⟨root, parentPath_append root hRest, inSubtree_iff.mpr ⟨[], .inl rfl, (append_nil _).symm⟩⟩

theorem parentPath_movedPath (h : below root path) (hPar : parentPath path = some parent) :
    parentPath (movedPath root destination path) = some (movedPath root destination parent) := by
  obtain ⟨other, hOther, hIn⟩ := parentPath_of_below h
  cases hPar.symm.trans hOther
  obtain ⟨tail, -, rfl⟩ := inSubtree_iff.mp hIn
  obtain ⟨name, hName, rfl⟩ := parentPath_eq_some hPar
  rw [append_assoc, movedPath_append, movedPath_append, ← append_assoc,
    parentPath_append _ hName]

theorem below_of_parentPath (h : parentPath path = some parent) : below parent path := by
  obtain ⟨name, -, rfl⟩ := parentPath_eq_some h
  exact below_iff.mpr ⟨name, rfl⟩

theorem length_lt_of_below (h : below root path) : root.length < path.length := by
  obtain ⟨rest, rfl⟩ := below_iff.mp h
  simp

theorem below_of_inSubtree {descendant : Text} (h : inSubtree root path)
    (hBelow : below path descendant = true) : below root descendant := by
  obtain ⟨tail, hTail, rfl⟩ := inSubtree_iff.mp h
  obtain ⟨rest, rfl⟩ := below_iff.mp hBelow
  rcases hTail with rfl | ⟨more, rfl⟩
  · exact below_iff.mpr ⟨rest, by simp⟩
  · exact below_iff.mpr ⟨more ++ '/' :: rest, by simp⟩

end Proctor.Workspace
