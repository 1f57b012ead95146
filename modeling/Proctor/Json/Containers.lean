import Proctor.Json.Document

/-! # Container bodies in reading order

The grammar pads every element and member on both sides. A reader meets the whitespace after an
item together with the separator that follows it; `Left` is the body of a container cut that way,
and the two forms derive the same texts. -/
namespace Json

open List

def ElementBody (tree : Tree) (text : List Char) : Prop :=
  ∃ w v, text = w ++ v ∧ Ws w ∧ Spells tree v

def MemberBody (member : List Item × Tree) (text : List Char) : Prop :=
  ∃ w k w' v, text = w ++ k ++ w' ++ ':' :: v ∧ Ws w ∧ StringSpells member.1 k ∧ Ws w' ∧
    ElementBody member.2 v

/-- What stands before an item: nothing before the first one, and a comma before the others. -/
def Separator (first : Bool) (text : List Char) : Prop :=
  if first then text = [] else ∃ w, text = w ++ [','] ∧ Ws w

/-- What is left inside a container, up to the closing delimiter. -/
def Left {α : Type} (body : α → List Char → Prop) : Bool → List α → List Char → Prop
  | _, [], text => Ws text
  | first, item :: items, text => ∃ sep a rest, text = sep ++ (a ++ rest) ∧ Separator first sep ∧
      body item a ∧ Left body false items rest

theorem ws_nil : Ws [] := nofun

section

variable {α : Type} {body : α → List Char → Prop} {items : List α} {item : α} {text : List Char}

theorem left_first : Left body true (item :: items) text ↔
    ∃ a rest, text = a ++ rest ∧ body item a ∧ Left body false items rest := by
  constructor
  · rintro ⟨_, a, rest, rfl, rfl, hItem, hRest⟩
    exact ⟨a, rest, rfl, hItem, hRest⟩
  · rintro ⟨a, rest, rfl, hItem, hRest⟩
    exact ⟨[], a, rest, rfl, rfl, hItem, hRest⟩

theorem left_next : Left body false (item :: items) text ↔
    ∃ w rest, text = w ++ ',' :: rest ∧ Ws w ∧ Left body true (item :: items) rest := by
  simp only [left_first]
  constructor
  · rintro ⟨_, a, rest, rfl, ⟨w, rfl, hw⟩, hItem, hRest⟩
    exact ⟨w, a ++ rest, by simp, hw, a, rest, rfl, hItem, hRest⟩
  · rintro ⟨w, _, rfl, hw, a, rest, rfl, hItem, hRest⟩
    exact ⟨w ++ [','], a, rest, by simp, ⟨w, rfl, hw⟩, hItem, hRest⟩

theorem left_separated {texts : List (List Char)} (h : Forall₂ body items texts) :
    Left body true items (separated texts) := by
  induction h with
  | nil => exact ws_nil
  | cons hItem hItems ih =>
    refine left_first.mpr ⟨_, _, rfl, hItem, ?_⟩
    cases hItems with
    | nil => exact ws_nil
    | cons => exact left_next.mpr ⟨[], _, rfl, ws_nil, ih⟩

/-- A form of the grammar that pads its items on both sides derives the same texts. -/
theorem left_iff {full : α → List Char → Prop} (spell : List α → List Char → Prop)
    (hFull : ∀ item text, full item text ↔ ∃ a w, text = a ++ w ∧ body item a ∧ Ws w)
    (hNil : ∀ text, ¬ spell [] text)
    (hCons : ∀ item items text, spell (item :: items) text ↔
      items = [] ∧ full item text ∨ ∃ a b, text = a ++ ',' :: b ∧ full item a ∧ spell items b) :
    Left body true items text ↔ items = [] ∧ Ws text ∨ spell items text := by
  induction items generalizing text with
  | nil => exact ⟨fun h => .inl ⟨rfl, h⟩, fun h => h.elim (·.2) fun h => absurd h (hNil text)⟩
  | cons item items ih =>
    rw [left_first, hCons]
    simp only [hFull, reduceCtorEq, false_and, false_or]
    cases items with
    | nil =>
      constructor
      · rintro ⟨a, rest, rfl, hItem, hRest⟩
        exact .inl ⟨rfl, a, rest, rfl, hItem, hRest⟩
      · rintro (⟨-, a, w, rfl, hItem, hw⟩ | ⟨a, b, -, -, hMore⟩)
        · exact ⟨a, w, rfl, hItem, hw⟩
        · exact absurd hMore (hNil b)
    | cons next items =>
      simp only [left_next, ih, reduceCtorEq, false_and, false_or]
      constructor
      · rintro ⟨a, _, rfl, hItem, w, rest, rfl, hw, hMore⟩
        exact ⟨a ++ w, rest, by simp, ⟨a, w, rfl, hItem, hw⟩, hMore⟩
      · rintro ⟨_, b, rfl, ⟨a, w, rfl, hItem, hw⟩, hMore⟩
        exact ⟨a, w ++ ',' :: b, by simp, hItem, w, b, rfl, hw, hMore⟩

end

theorem spells_arr_iff {elements : List Tree} {text : List Char} : Spells (.arr elements) text ↔
    ∃ body, text = '[' :: body ++ [']'] ∧ Left ElementBody true elements body := by
  have hFull (tree : Tree) (text : List Char) : Padded (Spells tree) text ↔
      ∃ a w, text = a ++ w ∧ ElementBody tree a ∧ Ws w := by
    constructor
    · rintro ⟨w, v, w', rfl, hw, hw', hv⟩
      exact ⟨w ++ v, w', rfl, ⟨w, v, rfl, hw, hv⟩, hw'⟩
    · rintro ⟨_, w', rfl, ⟨w, v, rfl, hw, hv⟩, hw'⟩
      exact ⟨w, v, w', rfl, hw, hw', hv⟩
  simp only [left_iff ElementsSpell hFull (fun _ => id) fun _ _ _ => Iff.rfl]
  exact Iff.rfl

theorem spells_obj_iff {members : List (List Item × Tree)} {text : List Char} :
    Spells (.obj members) text ↔
      ∃ body, text = '\x7b' :: body ++ ['\x7d'] ∧ Left MemberBody true members body := by
  have hFull (member : List Item × Tree) (text : List Char) :
      (∃ k v, Padded (StringSpells member.1) k ∧ Padded (Spells member.2) v ∧ text = k ++ ':' :: v) ↔
        ∃ a w, text = a ++ w ∧ MemberBody member a ∧ Ws w := by
    constructor
    · rintro ⟨_, _, ⟨w₁, k, w₂, rfl, hw₁, hw₂, hk⟩, ⟨w₃, v, w₄, rfl, hw₃, hw₄, hv⟩, rfl⟩
      exact ⟨w₁ ++ k ++ w₂ ++ ':' :: (w₃ ++ v), w₄, by simp,
        ⟨w₁, k, w₂, _, rfl, hw₁, hk, hw₂, w₃, v, rfl, hw₃, hv⟩, hw₄⟩
    · rintro ⟨_, w₄, rfl, ⟨w₁, k, w₂, _, rfl, hw₁, hk, hw₂, w₃, v, rfl, hw₃, hv⟩, hw₄⟩
      exact ⟨w₁ ++ k ++ w₂, w₃ ++ v ++ w₄, ⟨w₁, k, w₂, rfl, hw₁, hw₂, hk⟩,
        ⟨w₃, v, w₄, rfl, hw₃, hw₄, hv⟩, by simp⟩
  have hCons (member : List Item × Tree) (members : List (List Item × Tree)) (text : List Char) :
      MembersSpell (member :: members) text ↔
        members = [] ∧ (∃ k v, Padded (StringSpells member.1) k ∧ Padded (Spells member.2) v ∧
          text = k ++ ':' :: v) ∨ ∃ a b, text = a ++ ',' :: b ∧ (∃ k v, Padded (StringSpells member.1) k ∧
            Padded (Spells member.2) v ∧ a = k ++ ':' :: v) ∧ MembersSpell members b := by
    constructor
    · rintro ⟨k, v, hk, hv, ⟨hNil, hText⟩ | ⟨b, hText, hMore⟩⟩
      · exact .inl ⟨hNil, k, v, hk, hv, hText⟩
      · exact .inr ⟨_, b, hText, ⟨k, v, hk, hv, rfl⟩, hMore⟩
    · rintro (⟨hNil, k, v, hk, hv, hText⟩ | ⟨_, b, hText, ⟨k, v, hk, hv, rfl⟩, hMore⟩)
      · exact ⟨k, v, hk, hv, .inl ⟨hNil, hText⟩⟩
      · exact ⟨k, v, hk, hv, .inr ⟨b, hText, hMore⟩⟩
  simp only [left_iff MembersSpell hFull (fun _ => id) hCons]
  exact Iff.rfl

theorem elementDocs?_eq_some_iff {trees : List Tree} {docs : List Doc} :
    elementDocs? trees = some docs ↔ Forall₂ (fun tree doc => tree.doc? = some doc) trees docs := by
  induction trees generalizing docs with
  | nil => simp [elementDocs?, eq_comm]
  | cons tree trees ih => simp [elementDocs?, Option.bind_eq_some_iff, forall₂_cons_left_iff, ih, @eq_comm _ docs]

/-- The member that a pair of a spelled key and a tree is read as. -/
def ReadAs (member : List Item × Tree) (doc : List Char × Doc) : Prop :=
  scalars member.1 = some doc.1 ∧ member.2.doc? = some doc.2

theorem memberDocs?_eq_some_iff {members : List (List Item × Tree)} {docs : List (List Char × Doc)} :
    memberDocs? members = some docs ↔ Forall₂ ReadAs members docs := by
  induction members generalizing docs with
  | nil => simp [memberDocs?, eq_comm]
  | cons member members ih =>
    simp [memberDocs?, Option.bind_eq_some_iff, forall₂_cons_left_iff, ih, ReadAs, and_assoc, @eq_comm _ docs]

end Json
