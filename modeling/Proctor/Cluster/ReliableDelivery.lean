import Proctor.Transition.Basic

/-! # Reliable delivery to cluster peers

Model of `cluster/memberlist/reliable_delivery.go`. A section under the mutex is one step. What a
goroutine does after it has left the mutex (the call of `done`, the wake signal) is owed and becomes
a step of its own, so that it interleaves with everything else. A send starts when its worker takes
the envelope off the queue, and completes when `done` is called with its result. -/
namespace Proctor.Cluster

def maxWireBytes : Nat := 2 ^ 20 + 4096

def reliablePeerQueueEnvelopes : Nat := 64

def reliablePeerQueueBytes : Nat := 8 * maxWireBytes

/-- An envelope, numbered by the call of `enqueue` that brought it and its `done`. -/
structure ReliableEnvelope (ν : Type) where
  number : Nat
  node : ν
  size : Nat
  deriving DecidableEq, Repr

inductive Outcome (ε : Type) where
  | sent (result : Except ε Unit)
  | queueFull
  | stopped

inductive Worker (ν : Type) where
  /-- At the head of its loop. -/
  | checking
  /-- Waiting for the wake signal or the idle timer. -/
  | waiting
  /-- Past the idle timer. -/
  | expired
  | sending (envelope : ReliableEnvelope ν)
  | exited
  deriving DecidableEq, Repr

/-- A peer object; `registered` tells whether the map of peers holds it under its name. -/
structure ReliablePeer (ν : Type) where
  name : ν
  registered : Bool
  queue : List (ReliableEnvelope ν)
  bytes : Int
  wake : Bool
  worker : Worker ν
  deriving DecidableEq, Repr

structure ReliableDelivery (ν ε : Type) where
  stopped : Bool
  objects : List (ReliablePeer ν)
  /-- Calls of `done` that goroutines outside the mutex still owe. -/
  owed : List (Nat × Outcome ε)
  /-- Peer objects whose wake signal is still owed. -/
  signals : List Nat
  enqueued : Nat
  started : List (ReliableEnvelope ν)
  called : List (Nat × Outcome ε)

def newReliableDelivery (ν ε : Type) : ReliableDelivery ν ε := ⟨false, [], [], [], 0, [], []⟩

/-- The loop of `enqueue`: the dropped envelopes, the ones that stay and their bytes. -/
def makeRoom {ν : Type} (size : Nat) : List (ReliableEnvelope ν) → Int →
    List (ReliableEnvelope ν) × List (ReliableEnvelope ν) × Int
  | [], bytes => ([], [], bytes)
  | e :: rest, bytes =>
    if (e :: rest).length ≥ reliablePeerQueueEnvelopes ∨ bytes + size > reliablePeerQueueBytes then
      let (dropped, kept, left) := makeRoom size rest (bytes - e.size)
      (e :: dropped, kept, left)
    else ([], e :: rest, bytes)

variable {ν ε : Type}

def ReliablePeer.push (p : ReliablePeer ν) (e : ReliableEnvelope ν) : ReliablePeer ν :=
  let (_, kept, bytes) := makeRoom e.size p.queue p.bytes
  { p with queue := kept ++ [e], bytes := bytes + e.size }

def ReliablePeer.dropped (p : ReliablePeer ν) (e : ReliableEnvelope ν) :
    List (ReliableEnvelope ν) := (makeRoom e.size p.queue p.bytes).1

def newReliablePeer (name : ν) : ReliablePeer ν := ⟨name, true, [], 0, false, .checking⟩

section Steps

variable [DecidableEq ν]

def ReliableDelivery.lookup (d : ReliableDelivery ν ε) (name : ν) : Option Nat :=
  d.objects.findIdx? fun p => p.registered && p.name = name

def ReliableDelivery.register (d : ReliableDelivery ν ε) (name : ν) : ReliableDelivery ν ε :=
  { d with objects := d.objects ++ [newReliablePeer name] }

def ReliableDelivery.queueAt (d : ReliableDelivery ν ε) (i : Nat) (name : ν) (size : Nat) :
    Option (ReliableDelivery ν ε) := do
  let p ← d.objects[i]?
  let e : ReliableEnvelope ν := ⟨d.enqueued, name, size⟩
  return { d with
    objects := d.objects.set i (p.push e)
    owed := d.owed ++ (p.dropped e).map fun dropped => (dropped.number, .queueFull)
    signals := d.signals ++ [i]
    enqueued := d.enqueued + 1 }

def ReliableDelivery.enqueue (d : ReliableDelivery ν ε) (name : ν) (size : Nat) :
    Option (ReliableDelivery ν ε) :=
  if d.stopped then
    some { d with owed := d.owed ++ [(d.enqueued, .stopped)], enqueued := d.enqueued + 1 }
  else
    match d.lookup name with
    | some i => d.queueAt i name size
    | none => (d.register name).queueAt d.objects.length name size

def ReliableDelivery.check (d : ReliableDelivery ν ε) (i : Nat) : Option (ReliableDelivery ν ε) := do
  let p ← d.objects[i]?
  guard (p.worker = .checking)
  match p.queue with
  | [] =>
    return { d with
      objects := d.objects.set i { p with worker := if d.stopped then .exited else .waiting } }
  | e :: rest =>
    return { d with
      objects := d.objects.set i
        { p with queue := rest, bytes := p.bytes - e.size, worker := .sending e }
      started := d.started ++ [e] }

def ReliableDelivery.wakeUp (d : ReliableDelivery ν ε) (i : Nat) : Option (ReliableDelivery ν ε) := do
  let p ← d.objects[i]?
  guard (p.worker = .waiting ∧ p.wake = true)
  return { d with objects := d.objects.set i { p with wake := false, worker := .checking } }

def ReliableDelivery.idleTimeout (d : ReliableDelivery ν ε) (i : Nat) :
    Option (ReliableDelivery ν ε) := do
  let p ← d.objects[i]?
  guard (p.worker = .waiting)
  return { d with objects := d.objects.set i { p with worker := .expired } }

/-- After the idle timer, under the mutex: the worker leaves, and its object leaves the map of
peers, only if nothing is waiting. -/
def ReliableDelivery.expire (d : ReliableDelivery ν ε) (i : Nat) : Option (ReliableDelivery ν ε) := do
  let p ← d.objects[i]?
  guard (p.worker = .expired)
  match p.queue with
  | [] =>
    return { d with
      objects := d.objects.set i
        { p with
          registered := if d.lookup p.name = some i then false else p.registered
          worker := .exited } }
  | _ :: _ => return { d with objects := d.objects.set i { p with worker := .checking } }

def ReliableDelivery.complete (d : ReliableDelivery ν ε) (i : Nat) (result : Except ε Unit) :
    Option (ReliableDelivery ν ε) := do
  let p ← d.objects[i]?
  match p.worker with
  | .sending e =>
    return { d with
      objects := d.objects.set i { p with worker := .checking }
      called := d.called ++ [(e.number, .sent result)] }
  | _ => none

/-- One of the owed wake signals; a signal that is already set stays set. -/
def ReliableDelivery.signal (d : ReliableDelivery ν ε) (k : Nat) : Option (ReliableDelivery ν ε) := do
  let i ← d.signals[k]?
  let p ← d.objects[i]?
  return { d with
    signals := d.signals.eraseIdx k
    objects := d.objects.set i { p with wake := true } }

def ReliableDelivery.report (d : ReliableDelivery ν ε) (k : Nat) : Option (ReliableDelivery ν ε) := do
  let call ← d.owed[k]?
  return { d with owed := d.owed.eraseIdx k, called := d.called ++ [call] }

def ReliablePeer.abandon (p : ReliablePeer ν) : ReliablePeer ν :=
  if p.registered then { p with queue := [], bytes := 0, wake := true } else p

def ReliablePeer.abandoned (p : ReliablePeer ν) : List (ReliableEnvelope ν) :=
  if p.registered then p.queue else []

def ReliableDelivery.close (d : ReliableDelivery ν ε) : ReliableDelivery ν ε :=
  if d.stopped then d
  else
    { d with
      stopped := true
      objects := d.objects.map ReliablePeer.abandon
      owed := d.owed ++
        (d.objects.flatMap ReliablePeer.abandoned).map fun e => (e.number, .stopped) }

inductive Action (ν ε : Type) where
  | enqueue (name : ν) (size : Nat)
  | check (i : Nat)
  | wakeUp (i : Nat)
  | idleTimeout (i : Nat)
  | expire (i : Nat)
  | complete (i : Nat) (result : Except ε Unit)
  | signal (k : Nat)
  | report (k : Nat)
  | close

def ReliableDelivery.step (d : ReliableDelivery ν ε) : Action ν ε → Option (ReliableDelivery ν ε)
  | .enqueue name size => d.enqueue name size
  | .check i => d.check i
  | .wakeUp i => d.wakeUp i
  | .idleTimeout i => d.idleTimeout i
  | .expire i => d.expire i
  | .complete i result => d.complete i result
  | .signal k => d.signal k
  | .report k => d.report k
  | .close => some d.close

end Steps

def ReliableDelivery.waiting [DecidableEq ν] (d : ReliableDelivery ν ε) (name : ν) :
    List (ReliableEnvelope ν) :=
  (d.objects.filter fun p => p.name = name).flatMap (·.queue)

def Worker.inFlight : Worker ν → List (ReliableEnvelope ν)
  | .sending e => [e]
  | _ => []

def ReliableDelivery.inFlight [DecidableEq ν] (d : ReliableDelivery ν ε) (name : ν) :
    List (ReliableEnvelope ν) :=
  (d.objects.filter fun p => p.name = name).flatMap (·.worker.inFlight)

/-- Every goroutine has ended or is a worker that waits with no signal pending. -/
def ReliableDelivery.Quiescent (d : ReliableDelivery ν ε) : Prop :=
  d.owed = [] ∧ d.signals = [] ∧
    ∀ p ∈ d.objects, p.worker = .exited ∨ (p.worker = .waiting ∧ p.wake = false)

end Proctor.Cluster
