import Proctor.Admission.Control

/-! # The allowances of a lane

The map of users and the recency list stay two views of the same elements. What `spend` and `refund` do
to them is said once, for the element of the user and for the others. -/
namespace Proctor.Admission

open List

variable {User : Type}

/-- The map holds the users of the recency list, each with its element. -/
structure Allowances.Tracked (as : Allowances User) : Prop where
  elements : as.users.Perm (as.recency.map fun e => (e.user, e.id))
  users : (as.recency.map Element.user).Nodup
  ids : (as.recency.map Element.id).Nodup
  fresh : ∀ e ∈ as.recency, e.id < as.allocated
  bounded : as.recency.length ≤ controlUsers

namespace Allowances.Tracked

variable {as : Allowances User}

theorem empty : (Allowances.empty : Allowances User).Tracked :=
  ⟨.nil, .nil, .nil, nofun, Nat.zero_le _⟩

variable {e e' : Element User}

theorem element_unique (h : as.Tracked) (he : e ∈ as.recency) (he' : e' ∈ as.recency)
    (hUser : e.user = e'.user) : e = e' :=
  inj_on_of_nodup_map h.users he he' hUser

theorem id_unique (h : as.Tracked) (he : e ∈ as.recency) (he' : e' ∈ as.recency)
    (hId : e.id = e'.id) : e = e' :=
  inj_on_of_nodup_map h.ids he he' hId

variable [DecidableEq User]

theorem lookup_eq_some (h : as.Tracked) {user : User} {id : Nat} (hLookup : as.lookup user = some id) :
    ∃ e ∈ as.recency, e.user = user ∧ e.id = id := by
  obtain ⟨p, hFind, rfl⟩ := Option.map_eq_some_iff.mp hLookup
  have hUser := find?_some hFind
  obtain ⟨e, he, rfl⟩ := mem_map.mp (h.elements.mem_iff.mp (mem_of_find?_eq_some hFind))
  exact ⟨e, he, of_decide_eq_true hUser, rfl⟩

theorem lookup_eq_none (h : as.Tracked) {user : User} (hLookup : as.lookup user = none)
    (he : e ∈ as.recency) : e.user ≠ user := by
  intro hUser
  have hNone := find?_eq_none.mp (Option.map_eq_none_iff.mp hLookup) (e.user, e.id)
    (h.elements.mem_iff.mpr (mem_map.mpr ⟨e, he, rfl⟩))
  exact hNone (decide_eq_true hUser)

theorem filter (h : as.Tracked) (dropped : Element User) (hDropped : dropped ∈ as.recency)
    (evicted : List (User × Nat)) :
    Allowances.Tracked { as with
      users := as.users.filter fun p => p.1 ≠ dropped.user
      recency := as.recency.filter fun e => e.id ≠ dropped.id
      evicted := evicted } where
  elements := by
    have hSame : as.recency.filter (fun e => e.id ≠ dropped.id) =
        as.recency.filter (fun e => e.user ≠ dropped.user) := by
      refine filter_congr fun e he => ?_
      have hIff : e.id ≠ dropped.id ↔ e.user ≠ dropped.user :=
        not_congr ⟨fun hId => congrArg _ (h.id_unique he hDropped hId),
          fun hUser => congrArg _ (h.element_unique he hDropped hUser)⟩
      simp only [hIff]
    have hFiltered := h.elements.filter fun p => p.1 ≠ dropped.user
    rw [filter_map] at hFiltered
    rw [hSame]
    exact hFiltered
  users := h.users.sublist (filter_sublist.map _)
  ids := h.ids.sublist (filter_sublist.map _)
  fresh := fun e he => h.fresh e (mem_of_mem_filter he)
  bounded := Nat.le_trans (length_filter_le _ _) h.bounded

omit [DecidableEq User] in
theorem of_perm (h : as.Tracked) {recency : List (Element User)}
    (hSame : (recency.map fun e => (e.user, e.id)).Perm (as.recency.map fun e => (e.user, e.id))) :
    Allowances.Tracked { as with recency } where
  elements := h.elements.trans hSame.symm
  users := by
    have hUsers := hSame.map Prod.fst
    rw [map_map, map_map] at hUsers
    exact hUsers.nodup_iff.mpr h.users
  ids := by
    have hIds := hSame.map Prod.snd
    rw [map_map, map_map] at hIds
    exact hIds.nodup_iff.mpr h.ids
  fresh := by
    intro e he
    obtain ⟨old, hOld, hPair⟩ := mem_map.mp (hSame.mem_iff.mp (mem_map.mpr ⟨e, he, rfl⟩))
    rw [← (Prod.mk.inj hPair).2]
    exact h.fresh old hOld
  bounded := by
    have hLen := hSame.length_eq
    rw [length_map, length_map] at hLen
    exact Nat.le_trans (Nat.le_of_eq hLen) h.bounded

end Allowances.Tracked

section Steps

variable {lane : ControlLane} {as as' : Allowances User} {user : User} {now : Nat}

structure Allowances.Makes (now : Nat) (as as' : Allowances User) : Prop where
  tracked : as'.Tracked
  kept : ∀ e ∈ as'.recency, e ∈ as.recency
  lost : ∀ e ∈ as.recency, e ∈ as'.recency ∨ (e.user, now) ∈ as'.evicted
  evicted : ∀ p ∈ as'.evicted, p ∈ as.evicted ∨
    p.2 = now ∧ (∃ e ∈ as.recency, e.user = p.1) ∧ ∀ e ∈ as'.recency, e.user ≠ p.1
  recorded : ∀ p ∈ as.evicted, p ∈ as'.evicted

section

variable (h : as.Tracked)
include h

theorem Allowances.Makes.refl : as.Makes now as :=
  ⟨h, fun _ he => he, fun _ he => .inl he, fun _ hp => .inl hp, fun _ hp => hp⟩

theorem evict_makes [DecidableEq User] : as.Makes now (as.evict now) := by
  rw [Allowances.evict]
  split
  · exact .refl h
  next oldest hOldest =>
  have hMem := mem_of_getLast? hOldest
  refine ⟨h.filter oldest hMem _, fun e he => mem_of_mem_filter he, fun e he => ?_, fun p hp => ?_,
    fun p hp => mem_append_left _ hp⟩
  · by_cases hId : e.id = oldest.id
    · rw [h.id_unique he hMem hId]
      exact .inr (mem_append_right _ (mem_singleton.mpr rfl))
    · exact .inl (mem_filter.mpr ⟨he, decide_eq_true hId⟩)
  · rcases mem_append.mp hp with hp | hp
    · exact .inl hp
    rw [mem_singleton.mp hp]
    refine .inr ⟨rfl, ⟨oldest, hMem, rfl⟩, fun e he hUser => ?_⟩
    obtain ⟨he, hId⟩ := mem_filter.mp he
    exact of_decide_eq_true hId (congrArg _ (h.element_unique he hMem hUser))

theorem evict_length [DecidableEq User] : (as.evict now).recency.length + 1 ≤ controlUsers :=
    by
  rw [Allowances.evict]
  split
  · next hNone =>
    rw [getLast?_eq_none_iff.mp hNone, length_nil]
    decide
  next oldest hOldest =>
  have hMem := mem_of_getLast? hOldest
  have hShorter : (as.recency.filter fun e => e.id ≠ oldest.id).length < as.recency.length :=
    length_filter_lt_length_iff_exists.mpr ⟨oldest, hMem, by simp⟩
  exact Nat.le_trans hShorter h.bounded

theorem push_tracked (hNew : ∀ e ∈ as.recency, e.user ≠ user)
    (hRoom : as.recency.length + 1 ≤ controlUsers) : (as.push lane user now).Tracked where
  elements := (perm_append_singleton _ _).trans (h.elements.cons _)
  users := nodup_cons.mpr ⟨fun hMem => by
    obtain ⟨e, he, hUser⟩ := mem_map.mp hMem
    exact hNew e he hUser, h.users⟩
  ids := nodup_cons.mpr ⟨fun hMem => by
    obtain ⟨e, he, hId⟩ := mem_map.mp hMem
    exact Nat.lt_irrefl _ (hId ▸ h.fresh e he), h.ids⟩
  fresh := fun e he => by
    rcases mem_cons.mp he with rfl | he
    · exact Nat.lt_succ_self _
    · exact Nat.lt_succ_of_lt (h.fresh e he)
  bounded := hRoom

end

/-- The element that a user spends from: the one it has, or a new one with a full burst. -/
inductive Allowances.Base (lane : ControlLane) (as : Allowances User) (user : User) (now : Nat) :
    Element User → Prop
  | tracked (e : Element User) (hMem : e ∈ as.recency) (hUser : e.user = user) : Base lane as user now e
  | new (id : Nat) (hNew : ∀ e ∈ as.recency, e.user ≠ user) :
    Base lane as user now ⟨id, user, lane.capacity, now⟩

theorem Allowances.Base.user_eq {base : Element User} (h : as.Base lane user now base) : base.user = user := by
  cases h with
  | tracked _ _ hUser => exact hUser
  | new id _ => rfl

/-- What tracking a user does: its element is there, and the others are those that were left room. -/
structure Allowances.Tracks (lane : ControlLane) (user : User) (now : Nat) (as : Allowances User) (id : Nat)
    (as' : Allowances User) : Prop where
  tracked : as'.Tracked
  base : ∃ base ∈ as'.recency, base.id = id ∧ as.Base lane user now base
  kept : ∀ e ∈ as'.recency, e.user ≠ user → e ∈ as.recency
  lost : ∀ e ∈ as.recency, e.user ≠ user → e ∈ as'.recency ∨ (e.user, now) ∈ as'.evicted
  evicted : ∀ p ∈ as'.evicted, p ∈ as.evicted ∨ p.2 = now ∧ p.1 ≠ user ∧ ∀ e ∈ as'.recency, e.user ≠ p.1
  recorded : ∀ p ∈ as.evicted, p ∈ as'.evicted

section

variable (e : Element User)
include e

@[simp] theorem refill_user : (e.refill lane now).user = e.user := by
  rw [Element.refill]
  split <;> rfl

@[simp] theorem refill_id : (e.refill lane now).id = e.id := by
  rw [Element.refill]
  split <;> rfl

@[simp] theorem charge_user : (e.charge lane).user = e.user := by
  rw [Element.charge]
  split <;> rfl

@[simp] theorem charge_id : (e.charge lane).id = e.id := by
  rw [Element.charge]
  split <;> rfl

@[simp] theorem charge_refilledAt : (e.charge lane).refilledAt = e.refilledAt := by
  rw [Element.charge]
  split <;> rfl

end

theorem charge_credit (lane : ControlLane) (e : Element User) :
    (e.charge lane).credit + lane.cost * (decide (lane.cost ≤ e.credit)).toNat = e.credit := by
  rw [Element.charge]
  split
  · next hShort => rw [decide_eq_false (Nat.not_le_of_lt hShort), Bool.toNat_false, Nat.mul_zero, Nat.add_zero]
  next hEnough =>
  have hEnough := Nat.le_of_not_lt hEnough
  rw [decide_eq_true hEnough, Bool.toNat_true, Nat.mul_one]
  exact Nat.sub_add_cancel hEnough

theorem refill_refilledAt {e : Element User} (h : e.refilledAt ≤ now) :
    (e.refill lane now).refilledAt = now := by
  rw [Element.refill]
  split
  · rfl
  · omega

theorem refill_credit_le (now : Nat) {e : Element User} (h : e.credit ≤ lane.capacity) :
    (e.refill lane now).credit ≤ lane.capacity := by
  rw [Element.refill]
  split
  · exact Nat.min_le_left _ _
  · exact h

theorem refill_credit_add_le (lane : ControlLane) (now : Nat) (e : Element User) :
    (e.refill lane now).credit ≤ e.credit + milliseconds (now - e.refilledAt) := by
  rw [Element.refill]
  split
  · exact Nat.le_trans (Nat.min_le_right _ _) (Nat.add_le_add_left (Nat.min_le_left _ _) _)
  · exact Nat.le_add_right _ _

theorem moveToFront_perm {l : List (Element User)} (hIds : (l.map Element.id).Nodup) {e : Element User}
    (he : e ∈ l) : (e :: l.filter fun x => x.id ≠ e.id).Perm l := by
  induction l with
  | nil => cases he
  | cons head rest ih =>
    obtain ⟨hHead, hRest⟩ := nodup_cons.mp hIds
    rcases mem_cons.mp he with rfl | he
    · have hSame : rest.filter (fun x => x.id ≠ e.id) = rest := by
        refine filter_eq_self.mpr fun x hx => decide_eq_true ?_
        exact fun hId => hHead (mem_map.mpr ⟨x, hx, hId⟩)
      rw [filter_cons_of_neg (by simp), hSame]
    · have hNe : head.id ≠ e.id := fun hId => hHead (mem_map.mpr ⟨e, he, hId.symm⟩)
      rw [filter_cons_of_pos (by simpa using hNe)]
      exact (List.Perm.swap _ _ _).trans ((ih hRest he).cons head)

variable [DecidableEq User]

theorem track_tracks (lane : ControlLane) (user : User) (now : Nat) (h : as.Tracked) :
    as.Tracks lane user now (as.track lane user now).1 (as.track lane user now).2 := by
  rw [Allowances.track]
  split
  · next id hLookup =>
    obtain ⟨e, he, hUser, hId⟩ := h.lookup_eq_some hLookup
    exact ⟨h, ⟨e, he, hId, .tracked e he hUser⟩, fun _ he _ => he, fun _ he _ => .inl he,
      fun _ hp => .inl hp, fun _ hp => hp⟩
  · next hLookup =>
    have hNew : ∀ e ∈ as.recency, e.user ≠ user := fun e he => h.lookup_eq_none hLookup he
    generalize hRoomed : (if controlUsers ≤ as.recency.length then as.evict now else as) = room
    have hRoom : as.Makes now room ∧ room.recency.length + 1 ≤ controlUsers := by
      rw [← hRoomed]
      split
      · exact ⟨evict_makes h, evict_length h⟩
      · next hFull => exact ⟨.refl h, Nat.lt_of_not_le hFull⟩
    obtain ⟨hMakes, hLen⟩ := hRoom
    have hNewRoom : ∀ e ∈ room.recency, e.user ≠ user := fun e he => hNew e (hMakes.kept e he)
    refine ⟨push_tracked hMakes.tracked hNewRoom hLen, ⟨_, mem_cons_self, rfl, .new _ hNew⟩,
      fun e he hUser => ?_, fun e he hUser => ?_, fun p hp => ?_, hMakes.recorded⟩
    · rcases mem_cons.mp he with rfl | he
      · exact absurd rfl hUser
      · exact hMakes.kept e he
    · rcases hMakes.lost e he with he | he
      · exact .inl (mem_cons_of_mem _ he)
      · exact .inr he
    · rcases hMakes.evicted p hp with hp | ⟨hNow, ⟨old, hOld, hUser⟩, hGone⟩
      · exact .inl hp
      have hOther : p.1 ≠ user := hUser ▸ hNew old hOld
      refine .inr ⟨hNow, hOther, fun e he => ?_⟩
      rcases mem_cons.mp he with rfl | he
      · exact hOther.symm
      · exact hGone e he

/-- What spending does: the user pays from its refilled element, and the others are those that were left
room. -/
structure Allowances.Spends (lane : ControlLane) (user : User) (now : Nat) (as : Allowances User) (paid : Bool)
    (as' : Allowances User) : Prop where
  tracked : as'.Tracked
  own : ∃ base, as.Base lane user now base ∧ (base.refill lane now).charge lane ∈ as'.recency ∧
    paid = decide (lane.cost ≤ (base.refill lane now).credit)
  kept : ∀ e ∈ as'.recency, e.user ≠ user → e ∈ as.recency
  lost : ∀ e ∈ as.recency, e.user ≠ user → e ∈ as'.recency ∨ (e.user, now) ∈ as'.evicted
  evicted : ∀ p ∈ as'.evicted, p ∈ as.evicted ∨ p.2 = now ∧ p.1 ≠ user ∧ ∀ e ∈ as'.recency, e.user ≠ p.1
  recorded : ∀ p ∈ as.evicted, p ∈ as'.evicted

theorem spend_spends (lane : ControlLane) (user : User) (now : Nat) (h : as.Tracked) :
    as.Spends lane user now (as.spend lane user now).1 (as.spend lane user now).2 := by
  have hTracks := track_tracks lane user now h
  rw [Allowances.spend]
  generalize as.track lane user now = tracked at hTracks ⊢
  obtain ⟨id, tracked⟩ := tracked
  obtain ⟨base, hMem, rfl, hBase⟩ := hTracks.base
  have hFind : tracked.recency.find? (fun e => e.id = base.id) = some base := by
    cases hFind : tracked.recency.find? (fun e => e.id = base.id) with
    | none => exact absurd (decide_eq_true rfl) (find?_eq_none.mp hFind base hMem)
    | some e =>
      have hId := find?_some hFind
      rw [hTracks.tracked.id_unique (mem_of_find?_eq_some hFind) hMem (of_decide_eq_true hId)]
  have hUser := hBase.user_eq
  dsimp only
  rw [hFind]
  refine ⟨hTracks.tracked.of_perm ?_, ⟨base, hBase, mem_cons_self, rfl⟩, fun e he hOther => ?_,
    fun e he hOther => ?_, fun p hp => ?_, hTracks.recorded⟩
  · have hFront := (moveToFront_perm hTracks.tracked.ids hMem).map fun e => (e.user, e.id)
    rw [map_cons] at hFront ⊢
    rw [charge_user, charge_id, refill_user, refill_id]
    exact hFront
  · rcases mem_cons.mp he with rfl | he
    · rw [charge_user, refill_user] at hOther
      exact absurd hUser hOther
    · exact hTracks.kept e (mem_of_mem_filter he) hOther
  · rcases hTracks.lost e he hOther with he | he
    · refine .inl (mem_cons_of_mem _ (mem_filter.mpr ⟨he, decide_eq_true fun hId => ?_⟩))
      rw [hTracks.tracked.id_unique he hMem hId] at hOther
      exact hOther hUser
    · exact .inr he
  · rcases hTracks.evicted p hp with hp | ⟨hNow, hOther, hGone⟩
    · exact .inl hp
    refine .inr ⟨hNow, hOther, fun e he => ?_⟩
    rcases mem_cons.mp he with rfl | he
    · rw [charge_user, refill_user, hUser]
      exact hOther.symm
    · exact hGone e (mem_of_mem_filter he)

def Element.credited (lane : ControlLane) (e : Element User) : Element User :=
  { e with credit := min lane.capacity (e.credit + lane.cost) }

theorem refund_recency (h : as.Tracked) : (as.refund lane user).recency =
    as.recency.map fun e => if e.user = user then e.credited lane else e := by
  rw [Allowances.refund]
  split
  · next hLookup =>
    refine (map_id' as.recency).symm.trans (map_congr_left fun e he => ?_)
    rw [if_neg (h.lookup_eq_none hLookup he)]
  next id hLookup =>
  obtain ⟨own, hOwn, hUser, rfl⟩ := h.lookup_eq_some hLookup
  refine map_congr_left fun e he => ?_
  have hIff : e.id = own.id ↔ e.user = user :=
    ⟨fun hId => by rw [h.id_unique he hOwn hId, hUser],
      fun hSame => by rw [h.element_unique he hOwn (hSame.trans hUser.symm)]⟩
  simp only [hIff]
  rfl

/-- An element after a refund is one from before, with more credit only where it is the user's. -/
theorem mem_refund (h : as.Tracked) {e : Element User} (he : e ∈ (as.refund lane user).recency) :
    ∃ old ∈ as.recency, e.user = old.user ∧ e.refilledAt = old.refilledAt ∧
      (old.user ≠ user ∧ e.credit = old.credit ∨
        old.user = user ∧ e.credit = min lane.capacity (old.credit + lane.cost)) := by
  rw [refund_recency h] at he
  obtain ⟨old, hOld, rfl⟩ := mem_map.mp he
  refine ⟨old, hOld, ?_⟩
  split
  · next hSame => exact ⟨rfl, rfl, .inr ⟨hSame, rfl⟩⟩
  · next hOther => exact ⟨rfl, rfl, .inl ⟨hOther, rfl⟩⟩

theorem exists_mem_refund (lane : ControlLane) (user : User) (h : as.Tracked) {old : Element User}
    (hOld : old ∈ as.recency) : ∃ e ∈ (as.refund lane user).recency,
      e.user = old.user ∧ e.refilledAt = old.refilledAt := by
  rw [refund_recency h]
  refine ⟨_, mem_map.mpr ⟨old, hOld, rfl⟩, ?_⟩
  split <;> exact ⟨rfl, rfl⟩

theorem refund_evicted : (as.refund lane user).evicted = as.evicted := by
  rw [Allowances.refund]
  split <;> rfl

theorem refund_tracked (h : as.Tracked) : (as.refund lane user).Tracked := by
  rw [Allowances.refund]
  split
  · exact h
  refine h.of_perm (List.Perm.of_eq ?_)
  rw [map_map]
  refine map_congr_left fun e _ => ?_
  rw [Function.comp_apply]
  split <;> rfl

end Steps

end Proctor.Admission
