import Proctor.Json.Value

/-! # The sorted document

Sorting keeps what is asked of every key list and number, keeps the depth, and does nothing to a
document that is already sorted. -/
namespace Json

open List Doc

section Conditions

variable {keys : List (List Char) → Prop} {int : Int → Prop}

theorem Doc.Every.sort (hPerm : ∀ a b : List (List Char), a.Perm b → keys a → keys b) (doc : Doc) :
    doc.Every keys int → doc.sort.Every keys int := by
  induction doc using Doc.induct with
  | arr elements ih =>
    rw [Doc.sort, every_arr, every_arr, sortElements_eq_map]
    intro h e he
    obtain ⟨original, hMem, rfl⟩ := mem_map.mp he
    exact ih original hMem (h original hMem)
  | obj members ih =>
    rw [Doc.sort, every_obj, every_obj]
    rintro ⟨hKeys, hMems⟩
    constructor
    · have hSame := (sortedMembers_perm members).map Prod.fst
      rw [map_map] at hSame
      exact hPerm _ _ hSame.symm hKeys
    · rintro ⟨name, doc⟩ hm
      obtain ⟨original, hMem, rfl⟩ := mem_sortedMembers.mp hm
      exact ih (name, original) hMem (hMems (name, original) hMem)
  | _ => exact id

end Conditions

theorem Doc.depth_sort_le (doc : Doc) : ∀ n, doc.depth ≤ n → doc.sort.depth ≤ n := by
  induction doc using induct with
  | arr elements ih =>
    rintro (_ | n) h
    · rw [depth] at h; omega
    rw [depth, Nat.add_le_add_iff_right, elementsDepth_le_iff] at h
    rw [sort, depth, Nat.add_le_add_iff_right, elementsDepth_le_iff, sortElements_eq_map]
    intro e he
    obtain ⟨original, hMem, rfl⟩ := mem_map.mp he
    exact ih original hMem n (h original hMem)
  | obj members ih =>
    rintro (_ | n) h
    · rw [depth] at h; omega
    rw [depth, Nat.add_le_add_iff_right, membersDepth_le_iff] at h
    rw [sort, depth, Nat.add_le_add_iff_right, membersDepth_le_iff]
    rintro ⟨name, doc⟩ hm
    obtain ⟨original, hMem, rfl⟩ := mem_sortedMembers.mp hm
    exact ih (name, original) hMem n (h (name, original) hMem)
  | _ => exact fun n h => h

theorem Doc.Distinct.sort {doc : Doc} (h : doc.Distinct) : doc.sort.Distinct :=
  Every.sort (fun _ _ hPerm hNodup => hPerm.nodup_iff.mp hNodup) doc h

theorem Doc.sort_sort {doc : Doc} (h : doc.Distinct) : doc.sort.sort = doc.sort :=
  sort_eq_of_value_eq doc.sort doc h.sort h (value_sort doc h)

theorem Doc.sort_obj {members ordered : List (List Char × Doc)} (hPerm : ordered.Perm members)
    (hKeys : (ordered.map fun m => utf8 m.1).Pairwise (· < ·)) :
    (obj members).sort = .obj (ordered.map fun m => (m.1, m.2.sort)) := by
  rw [pairwise_map] at hKeys
  have hSorted : (ordered.map fun m => (m.1, m.2.sort)).Pairwise keyLe := by
    rw [pairwise_map]
    exact hKeys.imp fun h => List.le_of_lt h
  have hNodup : ((ordered.map fun m => (m.1, m.2.sort)).map Prod.fst).Nodup := by
    rw [map_map, List.Nodup, pairwise_map]
    refine hKeys.imp fun {a b} h hEq => ?_
    have hSame : a.1 = b.1 := hEq
    rw [hSame] at h
    exact List.lt_irrefl _ h
  have hSame : ((sortMembers members).insertionSort keyLe).Perm
      (ordered.map fun m => (m.1, m.2.sort)) :=
    (sortedMembers_perm members).trans (hPerm.symm.map _)
  refine congrArg obj
    (List.Perm.eq_of_pairwise ?_ (pairwise_insertionSort keyLe _) hSorted hSame)
  intro a b ha hb hab hba
  have hKey : a.1 = b.1 := utf8_injective (List.le_antisymm hab hba)
  exact inj_on_of_nodup_map hNodup (hSame.mem_iff.mp ha) hb hKey

end Json
