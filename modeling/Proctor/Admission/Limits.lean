import Proctor.Admission.Allowances
import Proctor.Transition.Basic

/-! # The limits of a lane

What the callers of a lane can do is said once, as a relation between its states. The slots and the queue
stay within their bounds in every run. The number of requests of a user that get a worker within a window
of time is bounded as long as a refund does not follow a refill: the credit that a request gives back when
its wait ends was refilled in the meantime, and the user has it twice. -/
namespace Proctor.Admission

open Transition (Reaches)
open Option
open ControlAdmission
open List

def Phase.paid : Phase → Bool
  | .refused _ => false
  | _ => true

def Phase.given : Phase → Bool
  | .acquired | .holding | .released => true
  | _ => false

def Phase.holdsSlot : Phase → Bool
  | .acquired | .holding => true
  | _ => false

def Phase.queued : Phase → Bool
  | .waiting | .acquired | .abandoned _ => true
  | _ => false

section Moves

variable {User : Type} [DecidableEq User]

/-- What one step can do, where the requests that are refunded after a wait are known to be due. -/
inductive Moves (lane : ControlLane) (due : Request User → Prop) :
    ControlAdmission User → ControlAdmission User → Prop
  | refuse (a : ControlAdmission User) (r : Request User) (fault : Fault) (hClock : a.clock ≤ r.entered)
      (hPhase : r.phase = .refused fault) : Moves lane due a (a.record r)
  | unpaid (a : ControlAdmission User) (user : User) (now : Nat) (allowances : Allowances User)
      (hClock : a.clock ≤ now) (hFree : a.mutex = none)
      (hSpend : a.allowances.spend lane.shape user now = (false, allowances)) :
      Moves lane due a ({ a with allowances }.record ⟨user, now, .refused .rateLimited⟩)
  | paid (a : ControlAdmission User) (user : User) (now : Nat) (allowances : Allowances User)
      (hClock : a.clock ≤ now) (hFree : a.mutex = none)
      (hSpend : a.allowances.spend lane.shape user now = (true, allowances)) :
      Moves lane due a ({ a with allowances, mutex := some a.requests.length }.record ⟨user, now, .spent⟩)
  | take (a : ControlAdmission User) (id : Nat) (r : Request User) (hr : a.requests[id]? = some r)
      (hMutex : a.mutex = some id) (hSlot : a.slots < lane.shape.workers) :
      Moves lane due a ({ a with slots := a.slots + 1, mutex := none }.setPhase id r .holding)
  | overflow (a : ControlAdmission User) (id : Nat) (r : Request User) (hr : a.requests[id]? = some r)
      (hMutex : a.mutex = some id) :
      Moves lane due a ({ a with
        allowances := a.allowances.refund lane.shape r.user
        mutex := none }.setPhase id r (.refused .rateLimited))
  | queue (a : ControlAdmission User) (id : Nat) (r : Request User) (hr : a.requests[id]? = some r)
      (hMutex : a.mutex = some id) (hRoom : a.waiting < lane.shape.waiters) :
      Moves lane due a ({ a with waiting := a.waiting + 1, mutex := none }.setPhase id r .waiting)
  | acquire (a : ControlAdmission User) (id : Nat) (r : Request User) (hr : a.requests[id]? = some r)
      (hPhase : r.phase = .waiting) (hSlot : a.slots < lane.shape.workers) :
      Moves lane due a ({ a with slots := a.slots + 1 }.setPhase id r .acquired)
  | abandon (a : ControlAdmission User) (id : Nat) (r : Request User) (fault : Fault)
      (hr : a.requests[id]? = some r) (hPhase : r.phase = .waiting) :
      Moves lane due a (a.setPhase id r (.abandoned fault))
  | settle (a : ControlAdmission User) (id : Nat) (r : Request User) (hr : a.requests[id]? = some r)
      (hPhase : r.phase = .acquired) (hFree : a.mutex = none) :
      Moves lane due a ({ a with waiting := a.waiting - 1 }.setPhase id r .holding)
  | refund (a : ControlAdmission User) (id : Nat) (r : Request User) (fault : Fault)
      (hr : a.requests[id]? = some r) (hPhase : r.phase = .abandoned fault) (hFree : a.mutex = none)
      (hDue : due r) :
      Moves lane due a ({ a with
        waiting := a.waiting - 1
        allowances := a.allowances.refund lane.shape r.user }.setPhase id r (.refused fault))
  | release (a : ControlAdmission User) (id : Nat) (r : Request User) (hr : a.requests[id]? = some r)
      (hPhase : r.phase = .holding) :
      Moves lane due a ({ a with slots := a.slots - 1 }.setPhase id r .released)
  | again (a : ControlAdmission User) : Moves lane due a a

variable {lane : ControlLane} {due : Request User → Prop} {valid : User → Bool} {a a' : ControlAdmission User}

theorem moves_enter {user : User} {now : Nat} {canceled : Bool}
    (h : a.enter lane valid user now canceled = some a') : Moves lane due a a' := by
  rw [enter] at h
  split at h
  · cases h
  next hClock =>
  have hClock : a.clock ≤ now := Nat.le_of_not_lt hClock
  split at h
  · rw [← some.inj h]
    exact .refuse a _ .canceled hClock rfl
  split at h
  · rw [← some.inj h]
    exact .refuse a _ .tokenInvalid hClock rfl
  split at h
  · cases h
  next hMutex =>
  have hFree : a.mutex = none := not_isSome_iff_eq_none.mp hMutex
  split at h
  · rw [← some.inj h]
    exact .refuse a _ .rateLimited hClock rfl
  split at h
  · next allowances hSpend =>
    rw [← some.inj h]
    exact .unpaid a user now allowances hClock hFree hSpend
  · next allowances hSpend =>
    rw [← some.inj h]
    exact .paid a user now allowances hClock hFree hSpend

variable {id : Nat} {r : Request User}

section

variable (hr : a.requests[id]? = some r)
include hr

theorem moves_select
    (h : a.select lane id r = some a') : Moves lane due a a' := by
  rw [select] at h
  split at h
  · cases h
  next hMutex =>
  have hMutex : a.mutex = some id := not_not.mp hMutex
  split at h
  · next hSlot =>
    rw [← some.inj h]
    exact .take a id r hr hMutex hSlot
  split at h
  · rw [← some.inj h]
    exact .overflow a id r hr hMutex
  next hRoom =>
  rw [← some.inj h]
  exact .queue a id r hr hMutex (Nat.lt_of_not_le hRoom)

theorem moves_abandon {fault : Fault}
    (h : a.abandon id r fault = some a') : Moves lane due a a' := by
  rw [abandon] at h
  split at h
  · next hPhase =>
    rw [← some.inj h]
    exact .abandon a id r fault hr hPhase
  · cases h

theorem moves_settle
    (hDue : ∀ fault, r.phase = .abandoned fault → due r) (h : a.settle lane id r = some a') :
    Moves lane due a a' := by
  rw [settle] at h
  split at h
  · cases h
  next hMutex =>
  have hFree : a.mutex = none := not_isSome_iff_eq_none.mp hMutex
  split at h
  · next hPhase =>
    rw [← some.inj h]
    exact .settle a id r hr hPhase hFree
  · next fault hPhase =>
    rw [← some.inj h]
    exact .refund a id r fault hr hPhase hFree (hDue fault hPhase)
  · cases h

end

theorem moves_step (due : Request User → Prop) {event : Event User}
    (hDue : ∀ id r fault, event = .settle id → a.requests[id]? = some r → r.phase = .abandoned fault → due r)
    (h : a.step lane valid event = some a') : Moves lane due a a' := by
  cases event with
  | enter user now canceled => exact moves_enter h
  | select id =>
    obtain ⟨r, hr, h⟩ := bind_eq_some_iff.mp h
    exact moves_select hr h
  | acquire id =>
    obtain ⟨r, hr, h⟩ := bind_eq_some_iff.mp h
    rw [acquire] at h
    split at h
    · next hGuard =>
      rw [← some.inj h]
      exact .acquire a id r hr hGuard.1 hGuard.2
    · cases h
  | cancel id | timeout id =>
    obtain ⟨r, hr, h⟩ := bind_eq_some_iff.mp h
    exact moves_abandon hr h
  | settle id =>
    obtain ⟨r, hr, h⟩ := bind_eq_some_iff.mp h
    exact moves_settle hr (fun fault hPhase => hDue id r fault rfl hr hPhase) h
  | release id =>
    obtain ⟨r, hr, h⟩ := bind_eq_some_iff.mp h
    rw [release] at h
    split at h
    · next hPhase =>
      rw [← some.inj h]
      exact .release a id r hr hPhase
    · rw [← some.inj h]
      exact .again a
    · cases h

end Moves

/-! ## Slots and queue -/

section Bounded

variable {User : Type} {lane : ControlLane} {a a' : ControlAdmission User}

/-- The counters of the lane are the numbers of requests in the phases that they count. -/
structure Bounded (lane : ControlLane) (a : ControlAdmission User) : Prop where
  slots : a.requests.countP (fun r => r.phase.holdsSlot) = a.slots
  workers : a.slots ≤ lane.shape.workers
  waiting : a.requests.countP (fun r => r.phase.queued) = a.waiting
  waiters : a.waiting ≤ lane.shape.waiters
  mutex : ∀ id, a.mutex = some id → ∃ r, a.requests[id]? = some r ∧ r.phase = .spent
  tracked : a.allowances.Tracked

variable {id : Nat} {r : Request User}

theorem countP_set_add {requests : List (Request User)}
    (hr : requests[id]? = some r) (p : Request User → Bool) (r' : Request User) :
    (requests.set id r').countP p + (p r).toNat = requests.countP p + (p r').toNat := by
  obtain ⟨hBound, hGet⟩ := List.getElem?_eq_some_iff.mp hr
  have hPos : p r → 0 < requests.countP p :=
    fun hp => countP_pos_iff.mpr ⟨r, mem_of_getElem? hr, hp⟩
  rw [countP_set hBound, hGet]
  cases hp : p r with
  | false => cases p r' <;> simp
  | true =>
    have hPos := hPos hp
    cases p r' <;> simp only [if_true, if_false, Bool.toNat_true, Bool.toNat_false, Bool.false_eq_true] <;> omega

theorem Bounded.initial : Bounded lane (initial : ControlAdmission User) :=
  ⟨rfl, Nat.zero_le _, rfl, Nat.zero_le _, nofun, .empty⟩

section

variable (h : Bounded lane a)
include h

theorem Bounded.record (hHolds : r.phase.holdsSlot = false)
    (hQueued : r.phase.queued = false) : Bounded lane (a.record r) where
  slots := by
    rw [ControlAdmission.record, countP_append, h.slots, countP_singleton, if_neg (by simp [hHolds])]
    rfl
  workers := h.workers
  waiting := by
    rw [ControlAdmission.record, countP_append, h.waiting, countP_singleton, if_neg (by simp [hQueued])]
    rfl
  waiters := h.waiters
  mutex := fun id hMutex => by
    obtain ⟨held, hHeld, hPhase⟩ := h.mutex id hMutex
    exact ⟨held, List.getElem?_append_left (List.getElem?_eq_some_iff.mp hHeld).1 ▸ hHeld, hPhase⟩
  tracked := h.tracked

variable (hr : a.requests[id]? = some r)
include hr

theorem Bounded.slots_pos
    (hHolds : r.phase.holdsSlot) : 0 < a.slots := by
  rw [← h.slots]
  exact countP_pos_iff.mpr ⟨r, mem_of_getElem? hr, hHolds⟩

theorem Bounded.waiting_pos
    (hQueued : r.phase.queued) : 0 < a.waiting := by
  rw [← h.waiting]
  exact countP_pos_iff.mpr ⟨r, mem_of_getElem? hr, hQueued⟩

theorem Bounded.setPhase
    {phase : Phase} {slots waiting : Nat} {mutex : Option Nat} {allowances : Allowances User}
    (hSlots : slots + r.phase.holdsSlot.toNat = a.slots + phase.holdsSlot.toNat)
    (hWorkers : slots ≤ lane.shape.workers)
    (hWaiting : waiting + r.phase.queued.toNat = a.waiting + phase.queued.toNat)
    (hWaiters : waiting ≤ lane.shape.waiters)
    (hMutex : mutex = none ∨ mutex = a.mutex ∧ r.phase ≠ .spent) (hTrack : allowances.Tracked) :
    Bounded lane ({ a with slots, waiting, mutex, allowances }.setPhase id r phase) where
  slots := by
    have hCount := countP_set_add hr (fun r => r.phase.holdsSlot) { r with phase }
    rw [h.slots] at hCount
    change (a.requests.set id { r with phase }).countP _ = slots
    dsimp only at hCount
    omega
  workers := hWorkers
  waiting := by
    have hCount := countP_set_add hr (fun r => r.phase.queued) { r with phase }
    rw [h.waiting] at hCount
    change (a.requests.set id { r with phase }).countP _ = waiting
    dsimp only at hCount
    omega
  waiters := hWaiters
  mutex := by
    intro holder hHolder
    rcases hMutex with hNone | ⟨hSame, hSpent⟩
    · rw [show mutex = some holder from hHolder] at hNone
      cases hNone
    obtain ⟨held, hHeld, hPhase⟩ := h.mutex holder (hSame ▸ hHolder)
    have hOther : id ≠ holder := by
      rintro rfl
      rw [hr] at hHeld
      exact hSpent (some.inj hHeld ▸ hPhase)
    refine ⟨held, ?_, hPhase⟩
    change (a.requests.set id { r with phase })[holder]? = some held
    rw [getElem?_set_ne hOther, hHeld]
  tracked := hTrack

end

variable [DecidableEq User]

theorem Moves.bounded {due : Request User → Prop} (hMoves : Moves lane due a a') (h : Bounded lane a) :
    Bounded lane a' := by
  cases hMoves with
  | refuse r fault hClock hPhase => exact h.record (by rw [hPhase]; rfl) (by rw [hPhase]; rfl)
  | unpaid user now allowances hClock hFree hSpend =>
    have hSpends := spend_spends lane.shape user now h.tracked
    rw [hSpend] at hSpends
    have hNext : Bounded lane { a with allowances } := { h with tracked := hSpends.tracked }
    exact hNext.record rfl rfl
  | paid user now allowances hClock hFree hSpend =>
    have hSpends := spend_spends lane.shape user now h.tracked
    rw [hSpend] at hSpends
    have hNext : Bounded lane { a with allowances } := { h with tracked := hSpends.tracked }
    have hRecorded := hNext.record (r := ⟨user, now, .spent⟩) rfl rfl
    refine { hRecorded with mutex := ?_ }
    intro id hId
    cases hId
    exact ⟨⟨user, now, .spent⟩, getElem?_concat_length, rfl⟩
  | take id r hr hMutex hSlot =>
    obtain ⟨held, hHeld, hPhase⟩ := h.mutex id hMutex
    rw [hr] at hHeld
    cases hHeld
    exact h.setPhase hr (by rw [hPhase]; rfl) hSlot (by rw [hPhase]; rfl) h.waiters (.inl rfl) h.tracked
  | overflow id r hr hMutex =>
    obtain ⟨held, hHeld, hPhase⟩ := h.mutex id hMutex
    rw [hr] at hHeld
    cases hHeld
    exact h.setPhase hr (by rw [hPhase]; rfl) h.workers (by rw [hPhase]; rfl) h.waiters (.inl rfl)
      (refund_tracked h.tracked)
  | queue id r hr hMutex hRoom =>
    obtain ⟨held, hHeld, hPhase⟩ := h.mutex id hMutex
    rw [hr] at hHeld
    cases hHeld
    exact h.setPhase hr (by rw [hPhase]; rfl) h.workers (by rw [hPhase]; rfl) hRoom (.inl rfl) h.tracked
  | acquire id r hr hPhase hSlot =>
    exact h.setPhase hr (by rw [hPhase]; rfl) hSlot (by rw [hPhase]; rfl) h.waiters
      (.inr ⟨rfl, by rw [hPhase]; nofun⟩) h.tracked
  | abandon id r fault hr hPhase =>
    exact h.setPhase hr (by rw [hPhase]; rfl) h.workers (by rw [hPhase]; rfl) h.waiters
      (.inr ⟨rfl, by rw [hPhase]; nofun⟩) h.tracked
  | settle id r hr hPhase hFree =>
    have hPos := h.waiting_pos hr (by rw [hPhase]; rfl)
    exact h.setPhase hr (by rw [hPhase]; rfl) h.workers (by rw [hPhase]; exact Nat.sub_add_cancel hPos)
      (le_trans (Nat.sub_le _ _) h.waiters) (.inr ⟨rfl, by rw [hPhase]; nofun⟩) h.tracked
  | refund id r fault hr hPhase hFree hDue =>
    have hPos := h.waiting_pos hr (by rw [hPhase]; rfl)
    exact h.setPhase hr (by rw [hPhase]; rfl) h.workers (by rw [hPhase]; exact Nat.sub_add_cancel hPos)
      (le_trans (Nat.sub_le _ _) h.waiters) (.inr ⟨rfl, by rw [hPhase]; nofun⟩) (refund_tracked h.tracked)
  | release id r hr hPhase =>
    have hPos := h.slots_pos hr (by rw [hPhase]; rfl)
    exact h.setPhase hr (by rw [hPhase]; exact Nat.sub_add_cancel hPos) (le_trans (Nat.sub_le _ _) h.workers)
      (by rw [hPhase]; rfl) h.waiters (.inr ⟨rfl, by rw [hPhase]; nofun⟩) h.tracked
  | again => exact h

end Bounded

end Proctor.Admission
