import Proctor.Json.Value

/-! # Decoding documents into structs

The reflective decoder of `encoding/json` with `DisallowUnknownFields`, on a document that was
already read. A member is stored in the field whose name equals its key, else in the one whose name
equals it up to case, and the last match wins. `null` leaves a plain field as it is and clears a
pointer or a slice; a pointer that is already set is decoded into. Every failure makes the whole
decoding fail. -/
namespace Json

open List Option

/-- The folding under which names are matched without regard to case. Beyond ASCII only the two
letters that fold to an ASCII one matter for ASCII field names. -/
def foldChar (c : Char) : Char :=
  if c = '\u017f' then 'S' else if c = '\u212a' then 'K' else c.toUpper

def foldName (name : List Char) : List Char := name.map foldChar

structure StructField (σ : Type) where
  name : List Char
  store : Doc → σ → Option σ

def structField {σ α : Type} (name : String) (step : Doc → α → Option α) (get : σ → α)
    (put : α → σ → σ) : StructField σ :=
  ⟨name.toList, fun doc s => (step doc (get s)).map fun v => put v s⟩

section Struct

variable {σ : Type} (fields : List (StructField σ))

def lookupField (key : List Char) : Option (StructField σ) :=
  (fields.find? fun f => f.name = key).or (fields.find? fun f => foldName f.name = foldName key)

section StructField

variable {α : Type} {name name' : String} (step : Doc → α → Option α) (get : σ → α) (put : α → σ → σ)

theorem find?_structField_own :
    (structField name step get put :: fields).find? (fun f => f.name = name.toList) =
      some (structField name step get put) :=
  find?_cons_of_pos (decide_eq_true rfl)

theorem find?_structField_other (h : name' ≠ name) :
    (structField name' step get put :: fields).find? (fun f => f.name = name.toList) =
      fields.find? fun f => f.name = name.toList := by
  refine find?_cons_of_neg ?_
  rw [decide_eq_true_eq]
  exact fun hEq => h (String.toList_injective hEq)

theorem structField_store (doc : Doc) (s : σ) :
    (structField name step get put).store doc s = (step doc (get s)).map fun v => put v s := rfl

end StructField

def unmarshalMembers : List (List Char × Doc) → σ → Option σ
  | [], s => some s
  | (key, doc) :: members, s => do
    let field ← lookupField fields key
    let s ← field.store doc s
    unmarshalMembers members s

def unmarshalStruct : Doc → σ → Option σ
  | .null, s => some s
  | .obj members, s => unmarshalMembers fields members s
  | _, _ => none

end Struct

def unmarshalString : Doc → List Char → Option (List Char)
  | .null, old => some old
  | .str s, _ => some s
  | _, _ => none

def unmarshalBool : Doc → Bool → Option Bool
  | .null, old => some old
  | .bool b, _ => some b
  | _, _ => none

def unmarshalInt : Doc → Int → Option Int
  | .null, old => some old
  | .int n, _ => if -2 ^ 63 ≤ n ∧ n < 2 ^ 63 then some n else none
  | _, _ => none

section Container

variable {α : Type} (zero : α) (element : Doc → α → Option α)

/-- A slice is nil or a list; each element is decoded into a zero value. -/
def unmarshalSlice : Doc → Option (List α) → Option (Option (List α))
  | .null, _ => some none
  | .arr elements, _ => (elements.mapM fun doc => element doc zero).map some
  | _, _ => none

def unmarshalPointer : Doc → Option α → Option (Option α)
  | .null, _ => some none
  | doc, old => (element doc (old.getD zero)).map some

theorem unmarshalPointer_of_ne_null {zero : α} {element : Doc → α → Option α} {doc : Doc}
    (hne : doc ≠ .null) (old : Option α) :
    unmarshalPointer zero element doc old = (element doc (old.getD zero)).map some := by
  cases doc with
  | null => exact absurd rfl hne
  | _ => rfl

end Container

section Struct

variable {σ α : Type} {fields : List (StructField σ)}

theorem lookupField_exact {key : List Char} {field : StructField σ} (h : field ∈ fields)
    (hKey : field.name = key) : ∃ f ∈ fields, f.name = key ∧ lookupField fields key = some f := by
  have hFind : (fields.find? fun f => f.name = key).isSome := by
    rw [find?_isSome]
    exact ⟨field, h, by simpa using hKey⟩
  obtain ⟨f, hf⟩ := isSome_iff_exists.mp hFind
  refine ⟨f, mem_of_find?_eq_some hf, by simpa using find?_some hf, ?_⟩
  rw [lookupField, hf, some_or]

/-- Only the field `name` stores into the component `get`, and it does so by `step`. -/
def Owns (fields : List (StructField σ)) (name : String) (step : Doc → α → Option α) (get : σ → α) : Prop :=
  ∀ f ∈ fields, ∀ doc s s', f.store doc s = some s' →
    (f.name = name.toList → step doc (get s) = some (get s')) ∧
      (f.name ≠ name.toList → get s' = get s)

section Owns

variable {name : String} {step : Doc → α → Option α} {get : σ → α}

theorem Owns.nil : Owns [] name step get := nofun

theorem Owns.own {put : α → σ → σ} (hPut : (fun v s => get (put v s)) = fun v _ => v)
    (h : Owns fields name step get) :
    Owns (structField name step get put :: fields) name step get := by
  intro f hf doc s s' hStore
  rcases mem_cons.mp hf with rfl | hf
  · obtain ⟨v, hv, rfl⟩ := map_eq_some_iff.mp hStore
    rw [congrFun₂ hPut]
    exact ⟨fun _ => hv, fun hne => absurd rfl hne⟩
  · exact h f hf doc s s' hStore

theorem Owns.other {β : Type} {name' : String} {step' : Doc → β → Option β} {get' : σ → β}
    {put' : β → σ → σ} (hName : name' ≠ name) (hPut : (fun v s => get (put' v s)) = fun _ => get)
    (h : Owns fields name step get) : Owns (structField name' step' get' put' :: fields) name step get := by
  intro f hf doc s s' hStore
  rcases mem_cons.mp hf with rfl | hf
  · obtain ⟨v, -, rfl⟩ := map_eq_some_iff.mp hStore
    exact ⟨fun hEq => absurd (String.toList_injective hEq) hName, fun _ => congrFun₂ hPut v s⟩
  · exact h f hf doc s s' hStore

end Owns

variable {members : List (List Char × Doc)}

/-- With exact names, an owned component holds what its member gives, and what it held before when
there is no such member. -/
theorem Owns.component {name : String} {step : Doc → α → Option α} {get : σ → α}
    (hOwns : Owns fields name step get) (hExact : ∀ m ∈ members, ∃ f ∈ fields, f.name = m.1)
    (hNodup : (members.map Prod.fst).Nodup) {s s' : σ}
    (h : unmarshalMembers fields members s = some s') :
    (members.lookup name.toList = none → get s' = get s) ∧
      ∀ doc, members.lookup name.toList = some doc → step doc (get s) = some (get s') := by
  induction members generalizing s with
  | nil =>
    cases h
    exact ⟨fun _ => rfl, fun doc hDoc => by cases hDoc⟩
  | cons member members ih =>
    obtain ⟨key, value⟩ := member
    obtain ⟨field, hField, hKey⟩ := hExact (key, value) (by simp)
    obtain ⟨f, hf, hName, hLookup⟩ := lookupField_exact hField hKey
    simp only [unmarshalMembers, hLookup, bind_eq_bind, bind_some,
      bind_eq_some_iff] at h
    obtain ⟨t, hStore, hRest⟩ := h
    rw [map_cons, nodup_cons] at hNodup
    obtain ⟨hNone, hSome⟩ := ih (fun m hm => hExact m (by simp [hm])) hNodup.2 hRest
    obtain ⟨hOwn, hOther⟩ := hOwns f hf value s t hStore
    by_cases hEq : name.toList = key
    · have hAbsent : members.lookup name.toList = none := by
        rw [lookup_eq_none_iff]
        intro m hm
        rw [bne_iff_ne]
        intro hSame
        exact hNodup.1 (mem_map.mpr ⟨m, hm, hSame.symm.trans hEq⟩)
      have hStep := hOwn (hName.trans hEq.symm)
      rw [← hNone hAbsent] at hStep
      have hHere : ((key, value) :: members).lookup name.toList = some value := by
        rw [lookup_cons, beq_iff_eq.mpr hEq]
      rw [hHere]
      refine ⟨by simp, fun doc hDoc => ?_⟩
      rwa [← Option.some.inj hDoc]
    · have hSame := hOther fun hf' => hEq (hf'.symm.trans hName)
      have hSkip : ((key, value) :: members).lookup name.toList = members.lookup name.toList := by
        rw [lookup_cons, beq_eq_false_iff_ne.mpr hEq]
      rw [hSkip, ← hSame]
      exact ⟨hNone, hSome⟩

theorem Owns.required {name : String} {zero v : α} {element : Doc → α → Option α}
    {get : σ → Option α} (hOwns : Owns fields name (unmarshalPointer zero element) get)
    (hExact : ∀ m ∈ members, ∃ f ∈ fields, f.name = m.1)
    (hNodup : (members.map Prod.fst).Nodup) {s s' : σ}
    (h : unmarshalMembers fields members s = some s') (hUnset : get s = none) (hSet : get s' = some v) :
    ∃ doc, members.lookup name.toList = some doc ∧ doc ≠ .null ∧ element doc zero = some v := by
  obtain ⟨hNone, hSome⟩ := hOwns.component hExact hNodup h
  cases hLookup : members.lookup name.toList with
  | none => rw [hNone hLookup, hUnset] at hSet; cases hSet
  | some doc =>
    have hStep := hSome doc hLookup
    rw [hUnset, hSet] at hStep
    refine ⟨doc, rfl, ?_⟩
    cases doc with
    | null => cases hStep
    | _ =>
      obtain ⟨w, hw, hEq⟩ := map_eq_some_iff.mp hStep
      exact ⟨nofun, Option.some.inj hEq ▸ hw⟩

end Struct

theorem memberValues_eq_lookup (members : List (List Char × Doc)) (name : List Char) :
    memberValues members name = (members.lookup name).map Doc.value := by
  induction members with
  | nil => rfl
  | cons member members ih =>
    obtain ⟨key, doc⟩ := member
    rw [memberValues, lookup_cons]
    split
    · rename_i h; rw [beq_iff_eq.mpr h]; rfl
    · rename_i h; rw [beq_eq_false_iff_ne.mpr h, ih]

variable {expected members : List (List Char × Doc)}

/-- An object has the value of an expected one when its names are the expected names and each of them
has the expected value. -/
theorem memberValues_eq_expected (hNames : ∀ m ∈ members, m.1 ∈ expected.map Prod.fst)
    (h : ∀ e ∈ expected, ∃ doc, members.lookup e.1 = some doc ∧ doc.value = e.2.value) :
    memberValues members = memberValues expected := by
  funext name
  rw [memberValues_eq_lookup, memberValues_eq_lookup]
  cases hLookup : expected.lookup name with
  | none =>
    have hAbsent : members.lookup name = none := by
      rw [lookup_eq_none_iff] at hLookup ⊢
      intro m hm
      obtain ⟨e, he, hKey⟩ := mem_map.mp (hNames m hm)
      rw [← hKey]
      exact hLookup e he
    rw [hAbsent]
  | some value =>
    obtain ⟨before, after, hSplit, -⟩ := lookup_eq_some_iff.mp hLookup
    obtain ⟨doc, hDoc, hValue⟩ := h (name, value) (by rw [hSplit]; simp)
    rw [hDoc]
    exact congrArg some hValue

theorem member_of_value_eq (hNodup : (members.map Prod.fst).Nodup)
    (h : (Doc.obj members).value = (Doc.obj expected).value) {m : List Char × Doc}
    (hm : m ∈ members) : ∃ doc, (m.1, doc) ∈ expected ∧ m.2.value = doc.value := by
  have hValues : memberValues members = memberValues expected := Value.obj.inj h
  have hHere := (memberValues_eq_some_iff hNodup m.1 m.2.value).mpr ⟨m.2, hm, rfl⟩
  rw [hValues, memberValues_eq_lookup] at hHere
  obtain ⟨doc, hLookup, hValue⟩ := map_eq_some_iff.mp hHere
  obtain ⟨before, after, hSplit, -⟩ := lookup_eq_some_iff.mp hLookup
  exact ⟨doc, by rw [hSplit]; simp, hValue.symm⟩

end Json
