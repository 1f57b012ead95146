import Mathlib

/-! # Admission to a control lane

Model of `controlAdmission`: the allowances that a lane keeps for its users, its slots and the callers of
`enter`. A caller takes the mutex, spends one request of its user and then takes a free slot, is refused
or queues; whoever queues takes a slot or gives up without the mutex and settles the outcome under it.
Slots are taken and freed by other callers at any moment in between. -/
namespace Proctor.Admission

/-- The fixed shape of a lane, its interval in nanoseconds. The two lanes of the server are positive and
small, so that `int` and `int64` are natural numbers here. A timer may fire at any moment, so that the
longest wait is left out. -/
structure ControlLane where
  workers : Nat
  waiters : Nat
  interval : Nat
  burst : Nat
  deriving DecidableEq

def milliseconds (duration : Nat) : Nat := duration / 1000000

def controlUsers : Nat := 4096

def deliveryControlLane : ControlLane := ⟨32, 0, 50000000, 40⟩

def liveControlLane : ControlLane := ⟨32, 4096, 2500000000, 6⟩

def ControlLane.shape (lane : ControlLane) : ControlLane :=
  if lane.workers < 1 then deliveryControlLane else lane

def ControlLane.cost (lane : ControlLane) : Nat := milliseconds lane.interval

def ControlLane.capacity (lane : ControlLane) : Nat := lane.burst * lane.cost

/-! ## Allowances -/

section Allowances

variable {User : Type}

/-- An element of the recency list, with the `controlAllowance` it points to. -/
structure Element (User : Type) where
  id : Nat
  user : User
  credit : Nat
  refilledAt : Nat
  deriving DecidableEq, Repr

/-- The map of users to their elements and the recency list, with what was evicted from them so far and
at which reading of the clock. -/
structure Allowances (User : Type) where
  users : List (User × Nat)
  recency : List (Element User)
  allocated : Nat
  evicted : List (User × Nat)
  deriving DecidableEq, Repr

def Allowances.empty : Allowances User := ⟨[], [], 0, []⟩

variable [DecidableEq User]

def Allowances.lookup (as : Allowances User) (user : User) : Option Nat :=
  (as.users.find? fun p => p.1 = user).map Prod.snd

def Allowances.evict (as : Allowances User) (now : Nat) : Allowances User :=
  match as.recency.getLast? with
  | none => as
  | some oldest =>
    { as with
      users := as.users.filter fun p => p.1 ≠ oldest.user
      recency := as.recency.filter fun e => e.id ≠ oldest.id
      evicted := as.evicted ++ [(oldest.user, now)] }

def Allowances.push (lane : ControlLane) (as : Allowances User) (user : User) (now : Nat) : Allowances User :=
  { as with
    users := as.users ++ [(user, as.allocated)]
    recency := ⟨as.allocated, user, lane.capacity, now⟩ :: as.recency
    allocated := as.allocated + 1 }

/-- The element of a user, which is new where the user was not tracked. -/
def Allowances.track (lane : ControlLane) (as : Allowances User) (user : User) (now : Nat) :
    Nat × Allowances User :=
  match as.lookup user with
  | some id => (id, as)
  | none =>
    let room := if controlUsers ≤ as.recency.length then as.evict now else as
    (room.allocated, room.push lane user now)

/-- A clock rollback cannot mint credit or move the refill origin backwards. -/
def Element.refill (lane : ControlLane) (now : Nat) (e : Element User) : Element User :=
  if e.refilledAt < now then
    { e with
      credit := min lane.capacity (e.credit + min (milliseconds (now - e.refilledAt)) lane.capacity)
      refilledAt := now }
  else e

def Element.charge (lane : ControlLane) (e : Element User) : Element User :=
  if e.credit < lane.cost then e else { e with credit := e.credit - lane.cost }

def Allowances.spend (lane : ControlLane) (as : Allowances User) (user : User) (now : Nat) :
    Bool × Allowances User :=
  let (id, tracked) := as.track lane user now
  match tracked.recency.find? fun e => e.id = id with
  | none => (false, tracked)
  | some e =>
    let refilled := e.refill lane now
    (decide (lane.cost ≤ refilled.credit),
      { tracked with recency := refilled.charge lane :: tracked.recency.filter fun x => x.id ≠ id })

def Allowances.refund (lane : ControlLane) (as : Allowances User) (user : User) : Allowances User :=
  match as.lookup user with
  | none => as
  | some id =>
    { as with
      recency := as.recency.map fun e =>
        if e.id = id then { e with credit := min lane.capacity (e.credit + lane.cost) } else e }

end Allowances

/-! ## Callers -/

inductive Fault where
  | canceled
  /-- `authentication.token_invalid` -/
  | tokenInvalid
  /-- `exam.delivery.control_rate_limited` -/
  | rateLimited
  deriving DecidableEq, Repr

/-- Where a call of `enter` stands. -/
inductive Phase where
  /-- It has spent and holds the mutex. -/
  | spent
  | waiting
  /-- Its wait ended with a slot, or with an error; the mutex is still to be taken. -/
  | acquired
  | abandoned (fault : Fault)
  /-- It returned a release function, which was not called, or was. -/
  | holding
  | released
  | refused (fault : Fault)
  deriving DecidableEq, Repr

structure Request (User : Type) where
  user : User
  entered : Nat
  phase : Phase
  deriving DecidableEq, Repr

structure ControlAdmission (User : Type) where
  /-- The caller that holds the mutex between two of its steps. -/
  mutex : Option Nat
  slots : Nat
  waiting : Nat
  allowances : Allowances User
  requests : List (Request User)
  clock : Nat
  deriving DecidableEq, Repr

def ControlAdmission.initial {User : Type} : ControlAdmission User := ⟨none, 0, 0, .empty, [], 0⟩

inductive Event (User : Type) where
  | enter (user : User) (now : Nat) (canceled : Bool)
  /-- The attempt to take a slot under the mutex, and the decision to queue. -/
  | select (id : Nat)
  | acquire (id : Nat)
  | cancel (id : Nat)
  | timeout (id : Nat)
  | settle (id : Nat)
  | release (id : Nat)

section Steps

variable {User : Type} [DecidableEq User] (lane : ControlLane) (valid : User → Bool)

def ControlAdmission.setPhase (a : ControlAdmission User) (id : Nat) (r : Request User) (phase : Phase) :
    ControlAdmission User :=
  { a with requests := a.requests.set id { r with phase } }

def ControlAdmission.record (a : ControlAdmission User) (r : Request User) : ControlAdmission User :=
  { a with requests := a.requests ++ [r], clock := r.entered }

def ControlAdmission.enter (a : ControlAdmission User) (user : User) (now : Nat) (canceled : Bool) :
    Option (ControlAdmission User) :=
  if now < a.clock then none
  else if canceled then some (a.record ⟨user, now, .refused .canceled⟩)
  else if !valid user then some (a.record ⟨user, now, .refused .tokenInvalid⟩)
  else if a.mutex.isSome then none
  else if lane.shape.waiters = 0 ∧ lane.shape.workers ≤ a.slots then
    some (a.record ⟨user, now, .refused .rateLimited⟩)
  else match a.allowances.spend lane.shape user now with
    | (false, allowances) =>
      some ({ a with allowances }.record ⟨user, now, .refused .rateLimited⟩)
    | (true, allowances) =>
      some ({ a with allowances, mutex := some a.requests.length }.record ⟨user, now, .spent⟩)

def ControlAdmission.select (a : ControlAdmission User) (id : Nat) (r : Request User) :
    Option (ControlAdmission User) :=
  if a.mutex ≠ some id then none
  else if a.slots < lane.shape.workers then
    some ({ a with slots := a.slots + 1, mutex := none }.setPhase id r .holding)
  else if lane.shape.waiters ≤ a.waiting then
    some ({ a with allowances := a.allowances.refund lane.shape r.user, mutex := none }.setPhase id r
      (.refused .rateLimited))
  else some ({ a with waiting := a.waiting + 1, mutex := none }.setPhase id r .waiting)

def ControlAdmission.acquire (a : ControlAdmission User) (id : Nat) (r : Request User) :
    Option (ControlAdmission User) :=
  if r.phase = .waiting ∧ a.slots < lane.shape.workers then
    some ({ a with slots := a.slots + 1 }.setPhase id r .acquired)
  else none

def ControlAdmission.abandon (a : ControlAdmission User) (id : Nat) (r : Request User) (fault : Fault) :
    Option (ControlAdmission User) :=
  if r.phase = .waiting then some (a.setPhase id r (.abandoned fault)) else none

def ControlAdmission.settle (a : ControlAdmission User) (id : Nat) (r : Request User) :
    Option (ControlAdmission User) :=
  if a.mutex.isSome then none
  else match r.phase with
    | .acquired => some ({ a with waiting := a.waiting - 1 }.setPhase id r .holding)
    | .abandoned fault =>
      some ({ a with
        waiting := a.waiting - 1
        allowances := a.allowances.refund lane.shape r.user }.setPhase id r (.refused fault))
    | _ => none

/-- A call of the release function, which `sync.Once` lets through once. -/
def ControlAdmission.release (a : ControlAdmission User) (id : Nat) (r : Request User) :
    Option (ControlAdmission User) :=
  match r.phase with
  | .holding => some ({ a with slots := a.slots - 1 }.setPhase id r .released)
  | .released => some a
  | _ => none

def ControlAdmission.step (a : ControlAdmission User) : Event User → Option (ControlAdmission User)
  | .enter user now canceled => a.enter lane valid user now canceled
  | .select id => a.requests[id]?.bind (a.select lane id)
  | .acquire id => a.requests[id]?.bind (a.acquire lane id)
  | .cancel id => a.requests[id]?.bind (a.abandon id · .canceled)
  | .timeout id => a.requests[id]?.bind (a.abandon id · .rateLimited)
  | .settle id => a.requests[id]?.bind (a.settle lane id)
  | .release id => a.requests[id]?.bind (a.release id)

end Steps

end Proctor.Admission
