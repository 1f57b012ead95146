import Proctor.Admission.Limits

/-! # The requests of a user within a window

Credit and paid requests of a user form a potential that grows by the time that was refilled only. It
bounds the requests that are given a worker in every window in which the user is not evicted, in the runs
where no refund follows a refill. -/
namespace Proctor.Admission

open Transition (Reaches)
open Option (bind_some some)
open ControlAdmission
open List

section Counting

variable {User : Type} [DecidableEq User]

def Request.paidFrom (user : User) (first : Nat) (r : Request User) : Bool :=
  decide (r.user = user) && decide (first ≤ r.entered) && r.phase.paid

def Request.paidWithin (user : User) (first last : Nat) (r : Request User) : Bool :=
  r.paidFrom user first && decide (r.entered ≤ last)

def Request.givenWithin (user : User) (first last : Nat) (r : Request User) : Bool :=
  decide (r.user = user) && decide (first ≤ r.entered) && decide (r.entered ≤ last) && r.phase.given

theorem paidFrom_eq_true {user : User} {first : Nat} {r : Request User} :
    r.paidFrom user first = true ↔ r.user = user ∧ first ≤ r.entered ∧ r.phase.paid := by
  simp [Request.paidFrom, and_assoc]

theorem paidWithin_eq_true {user : User} {first last : Nat} {r : Request User} :
    r.paidWithin user first last ↔
      r.user = user ∧ first ≤ r.entered ∧ r.phase.paid ∧ r.entered ≤ last := by
  simp [Request.paidWithin, paidFrom_eq_true, and_assoc]

theorem paid_of_given {phase : Phase} (h : phase.given = true) : phase.paid := by
  cases phase <;> first | rfl | cases h

theorem countP_givenWithin_le (user : User) (first last : Nat) (requests : List (Request User)) :
    requests.countP (Request.givenWithin user first last) ≤ requests.countP (Request.paidWithin user first last) := by
  refine countP_mono_left fun r _ h => ?_
  simp only [Request.givenWithin, Bool.and_eq_true, decide_eq_true_eq] at h
  exact paidWithin_eq_true.mpr ⟨h.1.1.1, h.1.1.2, paid_of_given h.2, h.1.2⟩

omit [DecidableEq User] in
theorem countP_concat (requests : List (Request User)) (r : Request User) (p : Request User → Bool) :
    (requests ++ [r]).countP p = requests.countP p + (p r).toNat := by
  rw [countP_append, countP_singleton]
  cases p r <;> rfl

def ControlAdmission.Kept (a : ControlAdmission User) (user : User) (first last : Nat) : Prop :=
  ∀ reading, (user, reading) ∈ a.allowances.evicted → first ≤ reading → last < reading

def ControlAdmission.KeptFrom (a : ControlAdmission User) (user : User) (first : Nat) : Prop :=
  ∀ reading, (user, reading) ∈ a.allowances.evicted → reading < first

/-- The user of the request has not refilled its credit since the request was entered. -/
def ControlAdmission.Unrefilled (a : ControlAdmission User) (r : Request User) : Prop :=
  ∀ e ∈ a.allowances.recency, e.user = r.user → e.refilledAt = r.entered

end Counting

/-- A request that is about to be refunded was the last one that refilled the credit of its user. -/
def ControlAdmission.timely {User : Type} [DecidableEq User] (a : ControlAdmission User) : Event User → Bool
  | .settle id => a.requests[id]?.all fun r => match r.phase with
    | .abandoned _ => a.allowances.recency.all fun e => e.user ≠ r.user || e.refilledAt = r.entered
    | _ => true
  | _ => true

def ControlAdmission.timelyStep {User : Type} [DecidableEq User] (lane : ControlLane) (valid : User → Bool)
    (a : ControlAdmission User) (event : Event User) : Option (ControlAdmission User) :=
  if a.timely event then a.step lane valid event else none

section Paced

variable {User : Type} [DecidableEq User]

structure Paced (lane : ControlLane) (a : ControlAdmission User) : Prop where
  entered : ∀ r ∈ a.requests, r.entered ≤ a.clock
  evicted : ∀ p ∈ a.allowances.evicted, p.2 ≤ a.clock
  refilled : ∀ e ∈ a.allowances.recency, e.refilledAt ≤ a.clock
  credit : ∀ e ∈ a.allowances.recency, e.credit ≤ lane.shape.capacity
  /-- The allowance that the holder of the mutex has spent from was not refilled since. -/
  holder : ∀ id r, a.mutex = some id → a.requests[id]? = some r →
    ∃ e ∈ a.allowances.recency, e.user = r.user ∧ e.refilledAt = r.entered
  /-- Whoever paid is still tracked, or was evicted since. -/
  present : ∀ r ∈ a.requests, r.phase.paid = true →
    (∃ e ∈ a.allowances.recency, e.user = r.user ∧ r.entered ≤ e.refilledAt) ∨
      ∃ reading, (r.user, reading) ∈ a.allowances.evicted ∧ r.entered ≤ reading
  /-- The potential of a user, from a reading on after which it was not evicted. -/
  potential : ∀ user first, a.KeptFrom user first →
    ∀ e ∈ a.allowances.recency, e.user = user → first ≤ e.refilledAt →
      lane.shape.cost * a.requests.countP (Request.paidFrom user first) + e.credit ≤
        lane.shape.capacity + milliseconds (e.refilledAt - first)
  window : ∀ user first last, a.Kept user first last →
    lane.shape.cost * a.requests.countP (Request.paidWithin user first last) ≤
      lane.shape.capacity + milliseconds (last - first)

theorem Paced.initial {lane : ControlLane} : Paced lane (initial : ControlAdmission User) where
  entered := nofun
  evicted := nofun
  refilled := nofun
  credit := nofun
  holder := nofun
  present := nofun
  potential := nofun
  window := fun _ _ _ _ => Nat.zero_le _

variable {lane : ControlLane} {a : ControlAdmission User} {first now : Nat} {user : User}
  {mutex : Option Nat} {phase : Phase} {r : Request User}

theorem Paced.none_paid (h : Paced lane a)
    (hKept : a.KeptFrom user first)
    (hLater : ∀ e ∈ a.allowances.recency, e.user = user → e.refilledAt < first) :
    a.requests.countP (Request.paidFrom user first) = 0 := by
  refine countP_eq_zero.mpr fun r hr hPaid => ?_
  obtain ⟨rfl, hFirst, hPaid⟩ := paidFrom_eq_true.mp hPaid
  rcases h.present r hr hPaid with ⟨e, he, hUser, hRefilled⟩ | ⟨reading, hEvicted, hRead⟩
  · have := hLater e he hUser
    omega
  · have := hKept reading hEvicted
    omega

theorem milliseconds_add_le (x y : Nat) : milliseconds x + milliseconds y ≤ milliseconds (x + y) := by
  rw [milliseconds, milliseconds, milliseconds]
  omega

theorem milliseconds_mono {x y : Nat} (h : x ≤ y) : milliseconds x ≤ milliseconds y :=
  Nat.div_le_div_right h

variable (h : Paced lane a)
include h

theorem Paced.refilled_potential (hTrack : a.allowances.Tracked) (hClock : a.clock ≤ now)
    (hFirst : first ≤ now) {base : Element User} (hBase : a.allowances.Base lane.shape user now base)
    (hKept : a.KeptFrom user first) :
    lane.shape.cost * a.requests.countP (Request.paidFrom user first) + (base.refill lane.shape now).credit ≤
      lane.shape.capacity + milliseconds (now - first) := by
  cases hBase with
  | tracked e hMem hUser =>
    by_cases hLater : first ≤ base.refilledAt
    · have hPotential := h.potential user first hKept base hMem hUser hLater
      have hCredit := refill_credit_add_le lane.shape now base
      have hSum := milliseconds_add_le (base.refilledAt - first) (now - base.refilledAt)
      have hRefilled := h.refilled base hMem
      rw [show base.refilledAt - first + (now - base.refilledAt) = now - first by omega] at hSum
      omega
    · have hNone : a.requests.countP (Request.paidFrom user first) = 0 := by
        refine h.none_paid hKept fun e he hSame => ?_
        rw [hTrack.element_unique he hMem (hSame.trans hUser.symm)]
        omega
      rw [hNone]
      have := refill_credit_le now (h.credit base hMem)
      omega
  | new id hNew =>
    have hNone : a.requests.countP (Request.paidFrom user first) = 0 :=
      h.none_paid hKept fun e he hSame => absurd hSame (hNew e he)
    rw [hNone, Element.refill, if_neg (lt_irrefl now)]
    dsimp only
    omega

/-- The element of a user that has spent, and what it amounts to with the requests that were paid. -/
structure ControlAdmission.Pays (lane : ControlLane) (a : ControlAdmission User) (user : User) (now : Nat)
    (paid : Bool) (allowances : Allowances User) (own : Element User) : Prop where
  mem : own ∈ allowances.recency
  user_eq : own.user = user
  refilledAt : own.refilledAt = now
  credit : own.credit ≤ lane.shape.capacity
  others : ∀ e ∈ allowances.recency, e = own ∨ e.user ≠ user ∧ e ∈ a.allowances.recency
  potential : ∀ first ≤ now, a.KeptFrom user first →
    lane.shape.cost * (a.requests.countP (Request.paidFrom user first) + paid.toNat) + own.credit ≤
      lane.shape.capacity + milliseconds (now - first)

theorem Paced.pays (hTrack : a.allowances.Tracked) (hClock : a.clock ≤ now) {paid : Bool}
    {allowances : Allowances User} (hSpends : a.allowances.Spends lane.shape user now paid allowances) :
    ∃ own, a.Pays lane user now paid allowances own := by
  obtain ⟨base, hBase, hOwn, hPaid⟩ := hSpends.own
  have hLast : base.refilledAt ≤ now ∧ base.credit ≤ lane.shape.capacity := by
    cases hBase with
    | tracked e hMem hUser => exact ⟨le_trans (h.refilled base hMem) hClock, h.credit base hMem⟩
    | new id hNew => exact ⟨le_refl now, le_refl _⟩
  have hCharged := charge_credit lane.shape (base.refill lane.shape now)
  rw [← hPaid] at hCharged
  have hUser : ((base.refill lane.shape now).charge lane.shape).user = user := by
    rw [charge_user, refill_user, hBase.user_eq]
  refine ⟨_, hOwn, hUser, ?_, ?_, fun e he => ?_, fun first hFirst hKept => ?_⟩
  · rw [charge_refilledAt, refill_refilledAt hLast.1]
  · have := refill_credit_le now hLast.2
    omega
  · by_cases hSame : e.user = user
    · exact .inl (hSpends.tracked.element_unique he hOwn (hSame.trans hUser.symm))
    · exact .inr ⟨hSame, hSpends.kept e he hSame⟩
  · have := h.refilled_potential hTrack hClock hFirst hBase hKept
    rw [mul_add]
    omega

/-- The bound on a window in which a paid request is entered now. -/
theorem Paced.window_of_pays (hClock : a.clock ≤ now) {allowances : Allowances User} {own : Element User}
    (hPays : a.Pays lane user now true allowances own) {last : Nat} (hFirst : first ≤ now) (hLast : now ≤ last)
    (hKept : a.Kept user first last) :
    lane.shape.cost * (a.requests.countP (Request.paidWithin user first last) + 1) ≤
      lane.shape.capacity + milliseconds (last - first) := by
  have hEarlier : a.KeptFrom user first := by
    intro reading hEvicted
    have hRead := h.evicted _ hEvicted
    by_contra hLater
    have := hKept reading hEvicted (Nat.le_of_not_lt hLater)
    omega
  have hFewer : a.requests.countP (Request.paidWithin user first last) ≤
      a.requests.countP (Request.paidFrom user first) := by
    refine countP_mono_left fun r _ hr => ?_
    obtain ⟨hrUser, hrFirst, hrPaid, -⟩ := paidWithin_eq_true.mp hr
    exact paidFrom_eq_true.mpr ⟨hrUser, hrFirst, hrPaid⟩
  calc lane.shape.cost * (a.requests.countP (Request.paidWithin user first last) + 1)
    _ ≤ lane.shape.cost * (a.requests.countP (Request.paidFrom user first) + 1) :=
      Nat.mul_le_mul_left _ (Nat.add_le_add_right hFewer 1)
    _ ≤ lane.shape.capacity + milliseconds (now - first) :=
      le_trans (Nat.le_add_right _ _) (hPays.potential first hFirst hEarlier)
    _ ≤ lane.shape.capacity + milliseconds (last - first) :=
      Nat.add_le_add_left (milliseconds_mono (Nat.sub_le_sub_right hLast first)) _

theorem Paced.present_of_pays (hClock : a.clock ≤ now) {paid : Bool} {allowances : Allowances User}
    {own : Element User} (hSpends : a.allowances.Spends lane.shape user now paid allowances)
    (hPays : a.Pays lane user now paid allowances own) (hr : r ∈ a.requests) (hPaid : r.phase.paid) :
    (∃ e ∈ allowances.recency, e.user = r.user ∧ r.entered ≤ e.refilledAt) ∨
      ∃ reading, (r.user, reading) ∈ allowances.evicted ∧ r.entered ≤ reading := by
  have hEntered := le_trans (h.entered r hr) hClock
  by_cases hSame : r.user = user
  · exact .inl ⟨own, hPays.mem, hPays.user_eq.trans hSame.symm, hPays.refilledAt ▸ hEntered⟩
  rcases h.present r hr hPaid with ⟨e, he, hUser, hAt⟩ | ⟨reading, hEvicted, hRead⟩
  · rcases hSpends.lost e he (hUser ▸ hSame) with he | he
    · exact .inl ⟨e, he, hUser, hAt⟩
    · exact .inr ⟨now, hUser ▸ he, hEntered⟩
  · exact .inr ⟨reading, hSpends.recorded _ hEvicted, hRead⟩

theorem Paced.spend (hTrack : a.allowances.Tracked)
    {paid : Bool} {allowances : Allowances User} (hClock : a.clock ≤ now)
    (hSpends : a.allowances.Spends lane.shape user now paid allowances)
    (hPhase : phase.paid = paid) (hMutex : mutex = none ∨ mutex = some a.requests.length) :
    Paced lane ({ a with allowances, mutex }.record ⟨user, now, phase⟩) := by
  obtain ⟨own, hPays⟩ := h.pays hTrack hClock hSpends
  exact {
    entered := forall_mem_append.mpr
      ⟨fun r hr => le_trans (h.entered r hr) hClock, forall_mem_singleton.mpr (le_refl now)⟩
    evicted := by
      intro p hp
      rcases hSpends.evicted p hp with hp | hp
      · exact le_trans (h.evicted p hp) hClock
      · exact le_of_eq hp.1
    refilled := by
      intro e he
      rcases hPays.others e he with rfl | ⟨-, he⟩
      · exact le_of_eq hPays.refilledAt
      · exact le_trans (h.refilled e he) hClock
    credit := by
      intro e he
      rcases hPays.others e he with rfl | ⟨-, he⟩
      · exact hPays.credit
      · exact h.credit e he
    holder := by
      intro id r hHeld hr
      rcases hMutex with hNone | hNew
      · rw [show mutex = some id from hHeld] at hNone
        cases hNone
      rw [show mutex = some id from hHeld] at hNew
      have hLast : (a.requests ++ [(⟨user, now, phase⟩ : Request User)])[id]? = some r := hr
      rw [some.inj hNew, getElem?_concat_length] at hLast
      cases hLast
      exact ⟨own, hPays.mem, hPays.user_eq, hPays.refilledAt⟩
    present := forall_mem_append.mpr ⟨fun r hr hPaid => h.present_of_pays hClock hSpends hPays hr hPaid,
      forall_mem_singleton.mpr fun _ => .inl ⟨own, hPays.mem, hPays.user_eq, le_of_eq hPays.refilledAt.symm⟩⟩
    potential := by
      intro u first hKept e he heUser hFirst
      have hBefore : a.KeptFrom u first :=
        fun reading hEvicted => hKept reading (hSpends.recorded _ hEvicted)
      change _ * (a.requests ++ [(⟨user, now, phase⟩ : Request User)]).countP _ + _ ≤ _
      rw [countP_concat]
      rcases hPays.others e he with rfl | ⟨hOther, he⟩
      · obtain rfl : u = user := heUser.symm.trans hPays.user_eq
        rw [hPays.refilledAt] at hFirst ⊢
        have hHere : Request.paidFrom u first ⟨u, now, phase⟩ = paid := by
          simp [Request.paidFrom, hPhase, hFirst]
        rw [hHere]
        exact hPays.potential first hFirst hBefore
      · have hElse : Request.paidFrom u first ⟨user, now, phase⟩ = false :=
          Bool.eq_false_iff.mpr fun hHere => hOther (heUser.trans (paidFrom_eq_true.mp hHere).1.symm)
        rw [hElse]
        exact h.potential u first hBefore e he heUser hFirst
    window := by
      intro u first last hKept
      have hBefore : a.Kept u first last := fun reading hEvicted => hKept reading (hSpends.recorded _ hEvicted)
      change _ * (a.requests ++ [(⟨user, now, phase⟩ : Request User)]).countP _ ≤ _
      rw [countP_concat]
      cases hHere : Request.paidWithin u first last ⟨user, now, phase⟩ with
      | false => exact h.window u first last hBefore
      | true =>
        obtain ⟨hSame, hFirst, hPaid, hLast⟩ := paidWithin_eq_true.mp hHere
        obtain rfl : user = u := hSame
        obtain rfl : paid = true := hPhase.symm.trans hPaid
        exact h.window_of_pays hClock hPays hFirst hLast hBefore }

theorem Paced.entered_set {id : Nat} (hr : a.requests[id]? = some r) :
    ∀ x ∈ a.requests.set id { r with phase }, x.entered ≤ a.clock := by
  intro x hx
  rcases mem_or_eq_of_mem_set hx with hx | rfl
  · exact h.entered x hx
  · exact h.entered r (mem_of_getElem? hr)

theorem Paced.setPhase {id : Nat} (hr : a.requests[id]? = some r) {slots waiting : Nat}
    (hPaid : r.phase.paid)
    (hPhase : phase.paid) (hMutex : mutex = none ∨ mutex = a.mutex) :
    Paced lane ({ a with slots, waiting, mutex }.setPhase id r phase) := by
  have hCount : ∀ p : Request User → Bool, p { r with phase } = p r →
      (a.requests.set id { r with phase }).countP p = a.requests.countP p := by
    intro p hp
    have hAdd := countP_set_add hr p { r with phase }
    rw [hp] at hAdd
    exact add_right_cancel hAdd
  exact {
    entered := h.entered_set hr
    evicted := h.evicted
    refilled := h.refilled
    credit := h.credit
    holder := by
      intro holder x hHeld hx
      rcases hMutex with hNone | hSame
      · rw [show mutex = some holder from hHeld] at hNone
        cases hNone
      have hHeld : a.mutex = some holder := hSame ▸ hHeld
      have hSet : (a.requests.set id { r with phase })[holder]? = some x := hx
      by_cases hId : id = holder
      · subst hId
        rw [List.getElem?_set_self (List.getElem?_eq_some_iff.mp hr).1] at hSet
        cases hSet
        exact h.holder id r hHeld hr
      · rw [getElem?_set_ne hId] at hSet
        exact h.holder holder x hHeld hSet
    present := by
      intro x hx hxPaid
      rcases mem_or_eq_of_mem_set hx with hx | rfl
      · exact h.present x hx hxPaid
      · exact h.present r (mem_of_getElem? hr) hPaid
    potential := by
      intro user first hKept e he hUser hFirst
      have hSame : Request.paidFrom user first { r with phase } = r.paidFrom user first := by
        rw [Request.paidFrom, Request.paidFrom, hPaid, hPhase]
      change _ * (a.requests.set id { r with phase }).countP _ + _ ≤ _
      rw [hCount _ hSame]
      exact h.potential user first hKept e he hUser hFirst
    window := by
      intro user first last hKept
      have hSame : Request.paidWithin user first last { r with phase } = r.paidWithin user first last := by
        rw [Request.paidWithin, Request.paidWithin, Request.paidFrom, Request.paidFrom, hPaid, hPhase]
      change _ * (a.requests.set id { r with phase }).countP _ ≤ _
      rw [hCount _ hSame]
      exact h.window user first last hKept }

/-- What a refund takes off the count of paid requests pays for the credit that it gives back. -/
theorem Paced.refund_potential (hTrack : a.allowances.Tracked) {id : Nat}
    (hr : a.requests[id]? = some r) (hPaid : r.phase.paid) (hPhase : phase.paid = false)
    (hTimely : a.Unrefilled r)
    (hKept : a.KeptFrom user first) {e : Element User}
    (he : e ∈ (a.allowances.refund lane.shape r.user).recency) (hUser : e.user = user)
    (hFirst : first ≤ e.refilledAt) :
    lane.shape.cost * (a.requests.set id { r with phase }).countP (Request.paidFrom user first) + e.credit ≤
      lane.shape.capacity + milliseconds (e.refilledAt - first) := by
  obtain ⟨old, hOld, hOldUser, hAt, hCredit⟩ := mem_refund hTrack he
  have hPotential := h.potential user first hKept old hOld (hOldUser ▸ hUser) (hAt ▸ hFirst)
  have hAdd := countP_set_add hr (Request.paidFrom user first) { r with phase }
  have hGone : Request.paidFrom user first { r with phase } = false := by
    rw [Request.paidFrom, hPhase, Bool.and_false]
  rw [hGone, Bool.toNat_false] at hAdd
  rw [hAt]
  rcases hCredit with ⟨hOther, hCredit⟩ | ⟨hSame, hCredit⟩
  · have hNone : r.paidFrom user first = false := by
      rw [Request.paidFrom, decide_eq_false fun hr => hOther (hOldUser.symm.trans (hUser.trans hr.symm))]
      rfl
    rw [hNone] at hAdd
    rw [add_right_cancel hAdd, hCredit]
    exact hPotential
  · -- the request was entered at the last refill, so that it counts wherever the element does
    have hHere : r.paidFrom user first := by
      refine paidFrom_eq_true.mpr ⟨hSame.symm.trans (hOldUser.symm.trans hUser), ?_, hPaid⟩
      rw [← hTimely old hOld hSame, ← hAt]
      exact hFirst
    rw [hHere, Bool.toNat_true] at hAdd
    rw [← add_zero (a.requests.countP _), ← hAdd, mul_add] at hPotential
    omega

theorem Paced.refund (hTrack : a.allowances.Tracked) {id : Nat}
    (hr : a.requests[id]? = some r) {waiting : Nat}
    (hPaid : r.phase.paid) (hPhase : phase.paid = false) (hMutex : mutex = none)
    (hTimely : a.Unrefilled r) :
    Paced lane ({ a with
      waiting
      mutex
      allowances := a.allowances.refund lane.shape r.user }.setPhase id r phase) := by
  have hEvicted : (a.allowances.refund lane.shape r.user).evicted = a.allowances.evicted := refund_evicted
  exact {
    entered := h.entered_set hr
    evicted := fun p hp => h.evicted p (hEvicted ▸ hp)
    refilled := by
      intro e he
      obtain ⟨old, hOld, -, hAt, -⟩ := mem_refund hTrack he
      exact hAt ▸ h.refilled old hOld
    credit := by
      intro e he
      obtain ⟨old, hOld, -, -, ⟨-, hCredit⟩ | ⟨-, hCredit⟩⟩ := mem_refund hTrack he
      · exact hCredit ▸ h.credit old hOld
      · exact hCredit ▸ min_le_left _ _
    holder := by
      intro holder x hHeld
      rw [show mutex = some holder from hHeld] at hMutex
      cases hMutex
    present := by
      intro x hx hxPaid
      rcases mem_or_eq_of_mem_set hx with hx | rfl
      · rcases h.present x hx hxPaid with ⟨e, he, hUser, hAt⟩ | ⟨reading, hGone, hRead⟩
        · obtain ⟨e', he', hUser', hAt'⟩ := exists_mem_refund lane.shape r.user hTrack he
          exact .inl ⟨e', he', hUser'.trans hUser, hAt' ▸ hAt⟩
        · exact .inr ⟨reading, hEvicted.symm ▸ hGone, hRead⟩
      · rw [hPhase] at hxPaid
        cases hxPaid
    potential := fun user first hKept e he hUser hFirst =>
      h.refund_potential hTrack hr hPaid hPhase hTimely
        (fun reading hGone => hKept reading (hEvicted.symm ▸ hGone)) he hUser hFirst
    window := by
      intro user first last hKept
      have hWin := h.window user first last fun reading hGone => hKept reading (hEvicted.symm ▸ hGone)
      have hAdd := countP_set_add hr (Request.paidWithin user first last) { r with phase }
      have hGone : Request.paidWithin user first last { r with phase } = false := by
        rw [Request.paidWithin, Request.paidFrom, hPhase, Bool.and_false, Bool.false_and]
      rw [hGone, Bool.toNat_false] at hAdd
      change _ * (a.requests.set id { r with phase }).countP _ ≤ _
      exact le_trans (Nat.mul_le_mul_left _ (by omega)) hWin }

theorem Paced.record (hClock : a.clock ≤ r.entered)
    (hPhase : r.phase.paid = false) (hHeld : ∀ id, a.mutex = some id → id < a.requests.length) :
    Paced lane (a.record r) := by
  have hCount : ∀ p : Request User → Bool, p r = false →
      (a.requests ++ [r]).countP p = a.requests.countP p := by
    intro p hp
    rw [countP_concat, hp, Bool.toNat_false, add_zero]
  exact {
    entered := forall_mem_append.mpr
      ⟨fun x hx => le_trans (h.entered x hx) hClock, forall_mem_singleton.mpr le_rfl⟩
    evicted := fun p hp => le_trans (h.evicted p hp) hClock
    refilled := fun e he => le_trans (h.refilled e he) hClock
    credit := h.credit
    holder := by
      intro id x hMutex hx
      refine h.holder id x hMutex ?_
      rw [← getElem?_append_left (hHeld id hMutex)]
      exact hx
    present := forall_mem_append.mpr
      ⟨h.present, forall_mem_singleton.mpr fun hPaid => by rw [hPhase] at hPaid; cases hPaid⟩
    potential := by
      intro user first hKept e he hUser hFirst
      change _ * (a.requests ++ [r]).countP _ + _ ≤ _
      rw [hCount _ (by rw [Request.paidFrom, hPhase, Bool.and_false])]
      exact h.potential user first hKept e he hUser hFirst
    window := by
      intro user first last hKept
      change _ * (a.requests ++ [r]).countP _ ≤ _
      rw [hCount _ (by rw [Request.paidWithin, Request.paidFrom, hPhase, Bool.and_false, Bool.false_and])]
      exact h.window user first last hKept }

end Paced

section Runs

variable {User : Type} [DecidableEq User] {lane : ControlLane} {valid : User → Bool}
  {a a' : ControlAdmission User}

theorem Moves.paced (hMoves : Moves lane a.Unrefilled a a') (hBounded : Bounded lane a) (h : Paced lane a) :
    Paced lane a' := by
  have hTrack := hBounded.tracked
  have hSpent : ∀ id r, a.mutex = some id → a.requests[id]? = some r → r.phase = .spent := by
    intro id r hMutex hr
    obtain ⟨held, hHeld, hPhase⟩ := hBounded.mutex id hMutex
    rw [hr] at hHeld
    exact some.inj hHeld ▸ hPhase
  cases hMoves with
  | refuse r fault hClock hPhase =>
    refine h.record hClock (by rw [hPhase]; rfl) fun id hMutex => ?_
    obtain ⟨held, hHeld, -⟩ := hBounded.mutex id hMutex
    exact (List.getElem?_eq_some_iff.mp hHeld).1
  | unpaid user now allowances hClock hFree hSpend =>
    have hSpends := spend_spends lane.shape user now hTrack
    rw [hSpend] at hSpends
    exact h.spend hTrack hClock hSpends rfl (.inl hFree)
  | paid user now allowances hClock hFree hSpend =>
    have hSpends := spend_spends lane.shape user now hTrack
    rw [hSpend] at hSpends
    exact h.spend hTrack hClock hSpends rfl (.inr rfl)
  | take id r hr hMutex hSlot | queue id r hr hMutex hRoom =>
    exact h.setPhase hr (by rw [hSpent id r hMutex hr]; rfl) rfl (.inl rfl)
  | overflow id r hr hMutex =>
    refine h.refund hTrack hr (by rw [hSpent id r hMutex hr]; rfl) rfl rfl fun e he hUser => ?_
    obtain ⟨own, hOwn, hOwnUser, hAt⟩ := h.holder id r hMutex hr
    rw [hTrack.element_unique he hOwn (hUser.trans hOwnUser.symm), hAt]
  | acquire id r hr hPhase hSlot | abandon id r fault hr hPhase | settle id r hr hPhase hFree
  | release id r hr hPhase => exact h.setPhase hr (by rw [hPhase]; rfl) rfl (.inr rfl)
  | refund id r fault hr hPhase hFree hDue =>
    exact h.refund hTrack hr (by rw [hPhase]; rfl) rfl hFree hDue
  | again => exact h

theorem unrefilled_of_timely {event : Event User} (h : a.timely event) {id : Nat} {r : Request User}
    {fault : Fault} (hEvent : event = .settle id) (hr : a.requests[id]? = some r)
    (hPhase : r.phase = .abandoned fault) : a.Unrefilled r := by
  subst hEvent
  rw [timely, hr, Option.all_some, hPhase] at h
  intro e he hUser
  have hElem := all_eq_true.mp h e he
  rw [Bool.or_eq_true, decide_eq_true_eq, decide_eq_true_eq] at hElem
  exact hElem.resolve_left fun hOther => hOther hUser

theorem bounded_of_reaches (h : Reaches (step lane valid) .initial a) : Bounded lane a := by
  refine h.invariant (fun s event t hs hStep => ?_) Bounded.initial
  exact (moves_step (fun _ => True) (fun _ _ _ _ _ _ => trivial) hStep).bounded hs

theorem paced_of_reaches (h : Reaches (timelyStep lane valid) .initial a) :
    Bounded lane a ∧ Paced lane a := by
  refine h.invariant (P := fun a => Bounded lane a ∧ Paced lane a) (fun s event t hs hStep => ?_)
    ⟨Bounded.initial, Paced.initial⟩
  rw [timelyStep] at hStep
  split at hStep
  · next hTimely =>
    have hMoves := moves_step s.Unrefilled
      (fun id r fault hEvent hr hPhase => unrefilled_of_timely hTimely hEvent hr hPhase) hStep
    exact ⟨hMoves.bounded hs.1, hMoves.paced hs.1 hs.2⟩
  · cases hStep

/-- The bounds on slots, queue and allowances, and the release of slots. -/
structure Limited (lane : ControlLane) (a : ControlAdmission User) : Prop where
  workers : a.requests.countP (fun r => r.phase.holdsSlot) ≤ lane.shape.workers
  waiters : a.requests.countP (fun r => r.phase.queued) ≤ lane.shape.waiters
  slots : a.slots = a.requests.countP fun r => r.phase.holdsSlot
  first : ∀ id r, a.requests[id]? = some r → r.phase = .holding → ∀ valid : User → Bool, ∃ a',
    a.step lane valid (.release id) = some a' ∧ a'.slots + 1 = a.slots ∧
      a'.requests[id]? = some { r with phase := .released }
  later : ∀ id r, a.requests[id]? = some r → r.phase = .released → ∀ valid : User → Bool,
    a.step lane valid (.release id) = some a ∧
      ∀ event a', a.step lane valid event = some a' → a'.requests[id]? = some r
  users : (a.allowances.users.map Prod.fst).Perm (a.allowances.recency.map Element.user)
  distinct : (a.allowances.users.map Prod.fst).Nodup
  tracked : a.allowances.users.length ≤ controlUsers

theorem Moves.released {due : Request User → Prop} (hMoves : Moves lane due a a') (h : Bounded lane a)
    {id : Nat} {r : Request User} (hr : a.requests[id]? = some r) (hReleased : r.phase = .released) :
    a'.requests[id]? = some r := by
  have hBound := (List.getElem?_eq_some_iff.mp hr).1
  have hRec : ∀ r', (a.requests ++ [r'])[id]? = some r := by
    intro r'
    rw [List.getElem?_append_left hBound, hr]
  have hSet : ∀ other r' phase, a.requests[other]? = some r' → r'.phase ≠ .released →
      (a.requests.set other { r' with phase })[id]? = some r := by
    intro other r' phase hOther hPhase
    have hNe : other ≠ id := by
      rintro rfl
      rw [hr] at hOther
      exact hPhase (some.inj hOther ▸ hReleased)
    rw [List.getElem?_set_ne hNe, hr]
  have hHeld : ∀ other r', a.mutex = some other → a.requests[other]? = some r' → r'.phase ≠ .released := by
    intro other r' hMutex hOther
    obtain ⟨held, hHeld, hPhase⟩ := h.mutex other hMutex
    rw [hOther] at hHeld
    rw [some.inj hHeld, hPhase]
    exact nofun
  cases hMoves with
  | refuse r' fault hClock hPhase => exact hRec r'
  | unpaid user now allowances hClock hFree hSpend => exact hRec _
  | paid user now allowances hClock hFree hSpend => exact hRec _
  | take other r' hOther hMutex hSlot | overflow other r' hOther hMutex
  | queue other r' hOther hMutex hRoom => exact hSet other r' _ hOther (hHeld other r' hMutex hOther)
  | acquire other r' hOther hPhase hSlot | abandon other r' fault hOther hPhase
  | settle other r' hOther hPhase hFree | refund other r' fault hOther hPhase hFree hDue
  | release other r' hOther hPhase => exact hSet other r' _ hOther (by rw [hPhase]; nofun)
  | again => exact hr

theorem Bounded.limited (h : Bounded lane a) : Limited lane a where
  workers := h.slots.symm ▸ h.workers
  waiters := h.waiting.symm ▸ h.waiters
  slots := h.slots.symm
  first := by
    intro id r hr hPhase valid
    refine ⟨{ a with slots := a.slots - 1 }.setPhase id r .released, ?_, ?_, ?_⟩
    · rw [step, hr, bind_some, release, hPhase]
    · exact Nat.sub_add_cancel (h.slots_pos hr (by rw [hPhase]; rfl))
    · exact List.getElem?_set_self (List.getElem?_eq_some_iff.mp hr).1
  later := by
    intro id r hr hPhase valid
    refine ⟨?_, fun event a' hStep => ?_⟩
    · rw [step, hr, bind_some, release, hPhase]
    · exact (moves_step (fun _ => True) (fun _ _ _ _ _ _ => trivial) hStep).released h hr hPhase
  users := by
    have hUsers := h.tracked.elements.map Prod.fst
    rw [map_map] at hUsers
    exact hUsers
  distinct := by
    have hUsers := h.tracked.elements.map Prod.fst
    rw [map_map] at hUsers
    exact hUsers.nodup_iff.mpr h.tracked.users
  tracked := by
    have hLen := h.tracked.elements.length_eq
    rw [length_map] at hLen
    exact hLen ▸ h.tracked.bounded

/-- The requests of a user that were entered in a window of some milliseconds and were given a worker are
no more than the burst and the intervals of the window allow, unless the user was evicted in it. -/
def Windowed (lane : ControlLane) (a : ControlAdmission User) : Prop :=
  ∀ user first window, a.Kept user first (first + window * 1000000) →
    a.requests.countP (Request.givenWithin user first (first + window * 1000000)) ≤
      lane.shape.burst + window / lane.shape.cost

theorem Paced.windowed (h : Paced lane a) (hCost : 0 < lane.shape.cost) : Windowed lane a := by
  intro user first window hKept
  have hWin := h.window user first (first + window * 1000000) hKept
  have hGiven := countP_givenWithin_le user first (first + window * 1000000) a.requests
  rw [Nat.add_sub_cancel_left, milliseconds, Nat.mul_div_cancel _ (by decide)] at hWin
  refine le_trans hGiven ?_
  rw [← Nat.mul_add_div hCost, Nat.le_div_iff_mul_le hCost]
  calc a.requests.countP _ * lane.shape.cost = lane.shape.cost * a.requests.countP _ := mul_comm _ _
    _ ≤ lane.shape.burst * lane.shape.cost + window := hWin
    _ = lane.shape.cost * lane.shape.burst + window := by rw [mul_comm]

/-- Slots, queue and allowances stay within their bounds in every run of a lane. The bound on the requests
of a user within a window holds, where a request costs at least a millisecond, in every run that refunds
a request only while its user has not refilled its credit since the request was entered. -/
theorem control_admission_limits (lane : ControlLane) (valid : User → Bool) :
    (∀ a, Reaches (ControlAdmission.step lane valid) .initial a → Limited lane a) ∧
      (0 < lane.shape.cost →
        ∀ a, Reaches (ControlAdmission.timelyStep lane valid) .initial a → Windowed lane a) := by
  refine ⟨fun a hRun => (bounded_of_reaches hRun).limited, fun hCost a hRun => ?_⟩
  exact (paced_of_reaches hRun).2.windowed hCost

/-- A request that waits for the one worker of a lane is refunded before its user enters another, which
gets the worker. -/
example : ([.enter 1 0 false, .select 0, .enter 0 0 false, .select 1, .timeout 1, .settle 1,
    .enter 0 2500000000 false, .select 2, .release 0, .acquire 2, .settle 2].foldlM
      (ControlAdmission.timelyStep ⟨1, 1, 2500000000, 1⟩ fun _ : Nat => true) .initial).map
        (fun a => a.requests.map Request.phase) =
    some [.released, .refused .rateLimited, .holding] := by decide

/-- All workers of the live lane are busy when user 0 enters a request that waits. One interval later the
user has a full burst again and queues it; the first request is canceled, and its refund pays for one
more. The workers are released and take the seven requests. -/
def refundedTwice : List (Event Nat) :=
  (List.range 32).flatMap (fun i => [.enter (i + 1) 0 false, .select i]) ++
    [.enter 0 0 false, .select 32] ++
    (List.range 6).flatMap (fun i => [.enter 0 2500000000 false, .select (33 + i)]) ++
    [.cancel 32, .settle 32, .enter 0 2500000000 false, .select 39] ++
    (List.range 7).flatMap fun i => [.release i, .acquire (33 + i)]

set_option maxRecDepth 20000 in
/-- Seven requests that were entered at one reading of the clock are given a worker, with a burst of six. -/
theorem refund_doubles_refill : ∃ a,
    Reaches (ControlAdmission.step liveControlLane fun _ : Nat => true) .initial a ∧
      ¬ Windowed liveControlLane a := by
  have hRun : (refundedTwice.foldlM (ControlAdmission.step liveControlLane fun _ : Nat => true) .initial).any
      (fun a => a.allowances.evicted = [] ∧
        a.requests.countP (Request.givenWithin 0 2500000000 2500000000) = 7) = true := by decide +kernel
  cases hEnd : refundedTwice.foldlM (ControlAdmission.step liveControlLane fun _ : Nat => true) .initial with
  | none =>
    rw [hEnd] at hRun
    cases hRun
  | some a =>
    rw [hEnd, Option.any_some, decide_eq_true_eq] at hRun
    refine ⟨a, Transition.reaches_of_foldlM hEnd, fun hWindowed => ?_⟩
    have hBound := hWindowed 0 2500000000 0 (by rw [ControlAdmission.Kept, hRun.1]; nofun)
    rw [Nat.zero_mul, Nat.add_zero, hRun.2] at hBound
    exact absurd hBound (by decide)

end Runs

end Proctor.Admission
