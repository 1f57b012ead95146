import Proctor.Transition.Basic

/-! # Connection identities and the replay of events

Model of the parts of `websocket/hub.go`, `connection.go`, `connection_outbound.go` and `replay.go`
that give an event its sequence number, keep it for replay, hand the kept events to the catalogue
when a connection ends and take them back when its identity is resumed. Sections under a mutex are
steps. Sequence numbers, `int64` in the code, are unbounded here. The hub also carries what its code
does not store: every event ever given a number under an identity, the sequence after which a
connection was registered, and the identities in use. -/
namespace Proctor.WebSocket

open Function (update)

def sendQueueSize : Nat := 256

def replayQueueSize : Nat := 128

/-- `replayRetention`, two minutes in nanoseconds. -/
def replayRetention : Int := 120 * 1000000000

/-- An event, as published (with `body` for its other fields) and with its sequence number. -/
structure Event (ι β : Type) where
  id : ι
  sequence : Int
  body : β
  deriving DecidableEq, Repr

inductive OutboundMessage (ι β : Type) where
  | event (event : Event ι β)
  | response
  deriving DecidableEq, Repr

structure ConnectionRuntime (τ ι β : Type) where
  userID : τ
  sessionID : τ
  nextSequence : Int
  history : List (Event ι β)
  replayable : Bool
  send : List (OutboundMessage ι β)
  written : List (OutboundMessage ι β)
  /-- The write pump ends at its first failed write. -/
  pumping : Bool
  /-- The send queue refused a message; the connection closes with `CloseBackpressure`. -/
  overflowed : Bool
  deriving DecidableEq, Repr

structure ReplayState (τ ι β : Type) where
  userID : τ
  sessionID : τ
  nextSequence : Int
  history : List (Event ι β)
  expiresAt : Int
  deriving DecidableEq, Repr

structure Hub (κ τ ι β : Type) where
  started : Bool
  conns : κ → Option (ConnectionRuntime τ ι β)
  replay : κ → Option (ReplayState τ ι β)
  issued : κ → List (Event ι β)
  resumedAfter : κ → Nat
  used : List κ

def newHub (κ τ ι β : Type) : Hub κ τ ι β :=
  ⟨true, fun _ => none, fun _ => none, fun _ => [], fun _ => 0, []⟩

section Connection

variable {τ ι β : Type} [DecidableEq ι]

/-- `tryEnqueueOutbound`, and the close for backpressure when it fails. -/
def ConnectionRuntime.enqueueOutbound (c : ConnectionRuntime τ ι β)
    (message : OutboundMessage ι β) : ConnectionRuntime τ ι β :=
  if c.send.length < sendQueueSize then { c with send := c.send ++ [message] }
  else { c with overflowed := true, replayable := false }

def ConnectionRuntime.candidate (c : ConnectionRuntime τ ι β) (id : ι) (body : β) : Event ι β :=
  ⟨id, c.nextSequence + 1, body⟩

def ConnectionRuntime.hasSent (c : ConnectionRuntime τ ι β) (id : ι) : Bool :=
  c.history.any fun sent => sent.id = id

def trimHistory (history : List (Event ι β)) : List (Event ι β) :=
  if history.length > replayQueueSize then history.drop (history.length - replayQueueSize)
  else history

def ConnectionRuntime.enqueueEvent (c : ConnectionRuntime τ ι β) (id : ι) (body : β) :
    ConnectionRuntime τ ι β :=
  if c.hasSent id then c
  else
    ConnectionRuntime.enqueueOutbound
      { c with
        nextSequence := c.nextSequence + 1
        history := trimHistory (c.history ++ [c.candidate id body]) }
      (.event (c.candidate id body))

def ConnectionRuntime.write (c : ConnectionRuntime τ ι β) (succeeds : Bool) :
    Option (ConnectionRuntime τ ι β) :=
  match c.pumping, c.send with
  | true, message :: rest =>
    if succeeds then some { c with send := rest, written := c.written ++ [message] }
    else some { c with send := rest, pumping := false }
  | _, _ => none

end Connection

section Hub

variable {κ τ ι β : Type} [DecidableEq κ] [DecidableEq τ] [DecidableEq ι]

def oldestSequence (nextSequence : Int) : List (Event ι β) → Int
  | [] => nextSequence
  | first :: _ => first.sequence - 1

/-- `takeReplayResumeLocked`: the retained state and the events after the requested sequence, or
nothing where a fresh connection starts. -/
def takeReplayResume (replay : κ → Option (ReplayState τ ι β)) (userID sessionID : τ)
    (requestedID : κ) (requestedSequence : Int) :
    Option (ReplayState τ ι β × List (Event ι β)) := do
  let state ← replay requestedID
  if state.userID = userID ∧ state.sessionID = sessionID ∧ requestedSequence ≤ state.nextSequence ∧
      requestedSequence ≥ oldestSequence state.nextSequence state.history then
    some (state, state.history.filter fun event => event.sequence > requestedSequence)
  else none

def newConnectionRuntime (userID sessionID : τ) (nextSequence : Int) (history : List (Event ι β))
    (replayEvents : List (Event ι β)) : ConnectionRuntime τ ι β :=
  ⟨userID, sessionID, nextSequence, history, true, replayEvents.map .event, [], true, false⟩

/-- `pruneReplayLocked`. -/
def pruneReplay (replay : κ → Option (ReplayState τ ι β)) (now : Int) :
    κ → Option (ReplayState τ ι β) :=
  fun id => (replay id).filter fun state => state.expiresAt > now

structure Registration (κ τ : Type) where
  userID : τ
  sessionID : τ
  requestedID : κ
  requestedSequence : Int
  now : Int
  /-- The identity that `model.NewID` would give. -/
  freshID : κ

/-- `register`, for a connection within the limits of its user and Session. -/
def Hub.register (h : Hub κ τ ι β) (r : Registration κ τ) : Option (Hub κ τ ι β) :=
  if h.started = true ∧ r.freshID ∉ h.used then
    let replay := pruneReplay h.replay r.now
    match takeReplayResume replay r.userID r.sessionID r.requestedID r.requestedSequence with
    | some (state, events) =>
      some { h with
        replay := update replay r.requestedID none
        conns := update h.conns r.requestedID
          (some (newConnectionRuntime r.userID r.sessionID state.nextSequence state.history events))
        resumedAfter := update h.resumedAfter r.requestedID r.requestedSequence.toNat }
    | none =>
      some { h with
        replay := replay
        conns := update h.conns r.freshID
          (some (newConnectionRuntime r.userID r.sessionID 0 [] []))
        resumedAfter := update h.resumedAfter r.freshID 0
        used := r.freshID :: h.used }
  else none

def Hub.enqueueEvent (h : Hub κ τ ι β) (id : κ) (eventID : ι) (body : β) :
    Option (Hub κ τ ι β) := do
  let c ← h.conns id
  return { h with
    conns := update h.conns id (some (c.enqueueEvent eventID body))
    issued := if c.hasSent eventID then h.issued
      else update h.issued id (h.issued id ++ [c.candidate eventID body]) }

def Hub.onConnection (h : Hub κ τ ι β) (id : κ)
    (f : ConnectionRuntime τ ι β → Option (ConnectionRuntime τ ι β)) : Option (Hub κ τ ι β) := do
  let c ← h.conns id
  let next ← f c
  return { h with conns := update h.conns id (some next) }

/-- `unregister`, after the last activity of the connection. -/
def Hub.unregister (h : Hub κ τ ι β) (id : κ) (now : Int) : Option (Hub κ τ ι β) := do
  let c ← h.conns id
  return { h with
    conns := update h.conns id none
    replay :=
      if c.replayable && h.started then
        update h.replay id
          (some ⟨c.userID, c.sessionID, c.nextSequence, c.history, now + replayRetention⟩)
      else h.replay }

inductive HubAction (κ τ ι β : Type) where
  | register (registration : Registration κ τ)
  | enqueueEvent (id : κ) (eventID : ι) (body : β)
  | enqueueResponse (id : κ)
  | write (id : κ) (succeeds : Bool)
  /-- `close` with `replayable` false, for a revoked Session, a rate limit and the like. -/
  | closeForGood (id : κ)
  | unregister (id : κ) (now : Int)
  | reap (now : Int)
  | stop

def Hub.step (h : Hub κ τ ι β) : HubAction κ τ ι β → Option (Hub κ τ ι β)
  | .register registration => h.register registration
  | .enqueueEvent id eventID body => h.enqueueEvent id eventID body
  | .enqueueResponse id => h.onConnection id fun c => some (c.enqueueOutbound .response)
  | .write id succeeds => h.onConnection id fun c => c.write succeeds
  | .closeForGood id => h.onConnection id fun c => some { c with replayable := false }
  | .unregister id now => h.unregister id now
  | .reap now => some { h with replay := pruneReplay h.replay now }
  | .stop => some { h with started := false }

end Hub

end Proctor.WebSocket
