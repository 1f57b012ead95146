import Proctor.Json.Document

/-! # Sorting decides equality of JSON values

Documents whose objects have distinct keys denote the same value exactly when their sorted forms
are equal, and sorting does not change the denoted value. -/
namespace Json

open List Doc
open Prod (fst mk)

theorem Doc.induct {motive : Doc → Prop} (null : motive .null) (bool : ∀ b, motive (.bool b))
    (int : ∀ n, motive (.int n)) (str : ∀ s, motive (.str s))
    (arr : ∀ elements, (∀ e ∈ elements, motive e) → motive (.arr elements))
    (obj : ∀ members, (∀ m ∈ members, motive m.2) → motive (.obj members)) (doc : Doc) :
    motive doc := by
  refine @rec motive (fun elements => ∀ e ∈ elements, motive e)
    (fun members => ∀ m ∈ members, motive m.2) (fun member => motive member.2)
    null bool int str arr obj (by simp) ?_ (by simp) ?_ (fun _ _ h => h) doc
  · exact fun _ _ hHead hTail => forall_mem_cons.mpr ⟨hHead, hTail⟩
  · exact fun _ _ hHead hTail => forall_mem_cons.mpr ⟨hHead, hTail⟩

theorem elementValues_eq_map (elements : List Doc) : elementValues elements = elements.map value := by
  induction elements with
  | nil => rfl
  | cons element elements ih => simp [elementValues, ih]

theorem sortElements_eq_map (elements : List Doc) : sortElements elements = elements.map sort := by
  induction elements with
  | nil => rfl
  | cons element elements ih => simp [sortElements, ih]

theorem sortMembers_eq_map (members : List (List Char × Doc)) :
    sortMembers members = members.map fun m => (m.1, m.2.sort) := by
  induction members with
  | nil => rfl
  | cons member members ih => simp [sortMembers, ih]

theorem sortMembers_keys (members : List (List Char × Doc)) :
    (sortMembers members).map fst = members.map fst := by
  rw [sortMembers_eq_map, map_map]
  rfl

section Conditions

variable {keys keys' : List (List Char) → Prop} {int int' : Int → Prop}

theorem everyElement_iff (elements : List Doc) :
    EveryElement keys int elements ↔ ∀ e ∈ elements, e.Every keys int := by
  induction elements with
  | nil => simp [EveryElement]
  | cons element elements ih => simp [EveryElement, ih]

theorem everyMember_iff (members : List (List Char × Doc)) :
    EveryMember keys int members ↔ ∀ m ∈ members, m.2.Every keys int := by
  induction members with
  | nil => simp [EveryMember]
  | cons member members ih => simp [EveryMember, ih]

theorem every_arr (elements : List Doc) :
    (arr elements).Every keys int ↔ ∀ e ∈ elements, e.Every keys int := by
  rw [Every, everyElement_iff]

theorem every_obj (members : List (List Char × Doc)) : (obj members).Every keys int ↔
      keys (members.map fst) ∧ ∀ m ∈ members, m.2.Every keys int := by
  rw [Every, everyMember_iff]

theorem Doc.Every.imp (hKeys : ∀ ks, keys ks → keys' ks) (hInt : ∀ n, int n → int' n) (doc : Doc) :
    doc.Every keys int → doc.Every keys' int' := by
  induction doc using Doc.induct with
  | int n => exact hInt n
  | arr elements ih =>
    rw [every_arr, every_arr]
    exact fun h e he => ih e he (h e he)
  | obj members ih =>
    rw [every_obj, every_obj]
    exact fun h => ⟨hKeys _ h.1, fun m hm => ih m hm (h.2 m hm)⟩
  | _ => exact fun _ => trivial

end Conditions

theorem elementsDepth_le_iff (elements : List Doc) (n : Nat) :
    elementsDepth elements ≤ n ↔ ∀ e ∈ elements, e.depth ≤ n := by
  induction elements with
  | nil => simp [elementsDepth]
  | cons element elements ih => simp [elementsDepth, ih]

theorem membersDepth_le_iff (members : List (List Char × Doc)) (n : Nat) :
    membersDepth members ≤ n ↔ ∀ m ∈ members, m.2.depth ≤ n := by
  induction members with
  | nil => simp [membersDepth]
  | cons member members ih => simp [membersDepth, ih]

variable {members a b : List (List Char × Doc)}

theorem memberValues_eq_some_iff
    (hKeys : (members.map fst).Nodup) (name : List Char) (value : Value) :
    memberValues members name = some value ↔ ∃ doc, (name, doc) ∈ members ∧ doc.value = value := by
  induction members with
  | nil => simp [memberValues]
  | cons member members ih =>
    obtain ⟨key, doc⟩ := member
    rw [map_cons, nodup_cons] at hKeys
    rw [memberValues]
    split
    · rename_i hName
      subst hName
      constructor
      · intro h
        exact ⟨doc, by simp, Option.some.inj h⟩
      rintro ⟨other, hOther, rfl⟩
      rcases mem_cons.mp hOther with hEq | hTail
      · rw [(mk.inj hEq).2]
      · exact absurd (mem_map_of_mem (f := fst) hTail) hKeys.1
    · rename_i hName
      rw [ih hKeys.2]
      constructor
      · rintro ⟨other, hOther, hValue⟩
        exact ⟨other, by simp [hOther], hValue⟩
      rintro ⟨other, hOther, hValue⟩
      rcases mem_cons.mp hOther with hEq | hTail
      · exact absurd (mk.inj hEq).1 hName
      · exact ⟨other, hTail, hValue⟩

theorem memberValues_congr (ha : (a.map fst).Nodup)
    (hb : (b.map fst).Nodup) (h : ∀ name value, (∃ doc, (name, doc) ∈ a ∧ doc.value = value) ↔
      ∃ doc, (name, doc) ∈ b ∧ doc.value = value) : memberValues a = memberValues b := by
  funext name
  apply Option.ext
  intro value
  rw [memberValues_eq_some_iff ha, memberValues_eq_some_iff hb, h]

theorem sortedMembers_perm (members : List (List Char × Doc)) :
    ((sortMembers members).insertionSort keyLe).Perm (members.map fun m => (m.1, m.2.sort)) := by
  rw [← sortMembers_eq_map]
  exact perm_insertionSort keyLe _

theorem sortedMembers_keys_nodup (h : (members.map fst).Nodup) :
    (((sortMembers members).insertionSort keyLe).map fst).Nodup := by
  rw [((sortedMembers_perm members).map fst).nodup_iff, map_map]
  exact h

theorem mem_sortedMembers {name : List Char} {doc : Doc} :
    (name, doc) ∈ (sortMembers members).insertionSort keyLe ↔
      ∃ original, (name, original) ∈ members ∧ original.sort = doc := by
  rw [(sortedMembers_perm members).mem_iff, mem_map]
  constructor
  · rintro ⟨⟨key, original⟩, hMem, hEq⟩
    cases hEq
    exact ⟨original, hMem, rfl⟩
  · rintro ⟨original, hMem, rfl⟩
    exact ⟨(name, original), hMem, rfl⟩

theorem Doc.value_sort (doc : Doc) : doc.Distinct → doc.sort.value = doc.value := by
  induction doc using induct with
  | null | bool b | int n | str s => intro _; rfl
  | arr elements ih =>
    intro h
    rw [Distinct, every_arr] at h
    simp only [sort, value, elementValues_eq_map, sortElements_eq_map, map_map,
      Value.arr.injEq]
    exact map_congr_left fun e he => ih e he (h e he)
  | obj members ih =>
    intro h
    rw [Distinct, every_obj] at h
    simp only [sort, value, Value.obj.injEq]
    apply memberValues_congr (sortedMembers_keys_nodup h.1) h.1
    intro name value
    constructor
    · rintro ⟨doc, hDoc, rfl⟩
      obtain ⟨original, hOrig, rfl⟩ := mem_sortedMembers.mp hDoc
      exact ⟨original, hOrig, (ih _ hOrig (h.2 _ hOrig)).symm⟩
    · rintro ⟨original, hOrig, rfl⟩
      exact ⟨original.sort, mem_sortedMembers.mpr ⟨original, hOrig, rfl⟩,
        ih _ hOrig (h.2 _ hOrig)⟩

theorem sortedMembers_eq (ha : (a.map fst).Nodup) (hb : (b.map fst).Nodup)
    (h : ∀ m, m ∈ (sortMembers a).insertionSort keyLe ↔ m ∈ (sortMembers b).insertionSort keyLe) :
    (sortMembers a).insertionSort keyLe = (sortMembers b).insertionSort keyLe := by
  have hNodupA := sortedMembers_keys_nodup ha
  have hNodupB := sortedMembers_keys_nodup hb
  have hPerm := (perm_ext_iff_of_nodup hNodupA.of_map hNodupB.of_map).mpr h
  refine List.Perm.eq_of_pairwise ?_ (pairwise_insertionSort keyLe _)
    (pairwise_insertionSort keyLe _) hPerm
  intro x y hx hy hxy hyx
  have hKey : x.1 = y.1 := utf8_injective (List.le_antisymm hxy hyx)
  exact inj_on_of_nodup_map hNodupA hx ((h y).mpr hy) hKey

theorem Doc.sort_eq_of_value_eq (a : Doc) :
    ∀ b : Doc, a.Distinct → b.Distinct → a.value = b.value → a.sort = b.sort := by
  induction a using induct with
  | null | bool x | int n | str s => intro b _ _ h; cases b <;> simp_all [value, sort]
  | arr elements ih =>
    intro b ha hb h
    cases b with
    | arr others =>
      rw [Distinct, every_arr] at ha hb
      simp only [value, elementValues_eq_map, Value.arr.injEq] at h
      simp only [sort, sortElements_eq_map, arr.injEq]
      induction elements generalizing others with
      | nil => rw [map_nil, eq_comm, map_eq_nil_iff] at h; rw [h]
      | cons element elements ihList =>
        cases others with
        | nil => cases h
        | cons other others =>
          obtain ⟨hHead, hTail⟩ := List.cons.inj h
          rw [map_cons, map_cons,
            ih element (by simp) other (ha _ (by simp)) (hb _ (by simp)) hHead,
            ihList (fun e he => ih e (by simp [he])) (fun e he => ha e (by simp [he])) others
              (fun e he => hb e (by simp [he])) hTail]
    | _ => cases h
  | obj members ih =>
    intro b ha hb h
    cases b with
    | obj others =>
      rw [Distinct, every_obj] at ha hb
      simp only [value, Value.obj.injEq] at h
      simp only [sort, obj.injEq]
      apply sortedMembers_eq ha.1 hb.1
      rintro ⟨name, doc⟩
      rw [mem_sortedMembers, mem_sortedMembers]
      constructor
      · rintro ⟨original, hOrig, rfl⟩
        have hSome := (memberValues_eq_some_iff ha.1 name original.value).mpr ⟨_, hOrig, rfl⟩
        rw [h, memberValues_eq_some_iff hb.1] at hSome
        obtain ⟨other, hOther, hValue⟩ := hSome
        exact ⟨other, hOther,
          (ih _ hOrig other (ha.2 _ hOrig) (hb.2 _ hOther) hValue.symm).symm⟩
      · rintro ⟨other, hOther, rfl⟩
        have hSome := (memberValues_eq_some_iff hb.1 name other.value).mpr ⟨_, hOther, rfl⟩
        rw [← h, memberValues_eq_some_iff ha.1] at hSome
        obtain ⟨original, hOrig, hValue⟩ := hSome
        exact ⟨original, hOrig, ih _ hOrig other (ha.2 _ hOrig) (hb.2 _ hOther) hValue⟩
    | _ => cases h

theorem Doc.value_eq_iff_sort_eq {a b : Doc} (ha : a.Distinct) (hb : b.Distinct) :
    a.value = b.value ↔ a.sort = b.sort := by
  refine ⟨sort_eq_of_value_eq a b ha hb, fun h => ?_⟩
  rw [← value_sort a ha, ← value_sort b hb, h]

end Json
