import Proctor.Base64.Basic
import Proctor.Cluster.ReliableDelivery
import Proctor.Json.Unmarshal
import Proctor.Json.Writer
import Proctor.Values.Basic

/-! # Cluster messages on the wire

Model of `cluster/message.go`, of the envelope in `cluster/memberlist/transport.go` and of
`NotifyMsg` in `cluster/memberlist/delegate.go`. Strings are byte strings, as nothing in a property
value has to be UTF-8. A node's handlers are kept as functions from the message to their error. -/
namespace Proctor.Cluster

open Json List

def ascii (text : String) : Bytes := utf8 text.toList

/-! ## Messages -/

def maxEventBytes : Nat := 128

def maxMessageBytes : Nat := 2 ^ 20

def maxMessageProps : Nat := 32

def maxPropKeyBytes : Nat := 64

def maxPropValueBytes : Nat := 1024

def putEntry (key value : Bytes) : List (Bytes × Bytes) → List (Bytes × Bytes)
  | [] => [(key, value)]
  | entry :: rest =>
    if key < entry.1 then (key, value) :: entry :: rest
    else if key = entry.1 then (key, value) :: rest
    else entry :: putEntry key value rest

variable {entries : List (Bytes × Bytes)} {key value : Bytes}

theorem mem_putEntry {entry : Bytes × Bytes}
    (h : entry ∈ putEntry key value entries) : entry = (key, value) ∨ entry ∈ entries := by
  induction entries with
  | nil => exact .inl (mem_singleton.mp h)
  | cons first rest ih =>
    rw [putEntry] at h
    split at h
    · exact (mem_cons.mp h).imp_right fun hIn => hIn
    split at h
    · exact (mem_cons.mp h).imp_right (mem_cons_of_mem _)
    rcases mem_cons.mp h with rfl | hIn
    · exact .inr mem_cons_self
    · exact (ih hIn).imp_right (mem_cons_of_mem _)

theorem putEntry_sorted (h : entries.Pairwise fun a b => a.1 < b.1) :
    (putEntry key value entries).Pairwise fun a b => a.1 < b.1 := by
  induction h with
  | nil => exact pairwise_singleton _ _
  | @cons first rest hFirst hRest ih =>
    rw [putEntry]
    split
    · next hLess =>
      refine .cons (fun entry hEntry => ?_) (.cons hFirst hRest)
      rcases mem_cons.mp hEntry with rfl | hIn
      · exact hLess
      · exact List.lt_trans hLess (hFirst entry hIn)
    · next hNotLess =>
      split
      · next hSame =>
        refine .cons (fun entry hEntry => ?_) hRest
        rw [hSame]
        exact hFirst entry hEntry
      · next hOther =>
        refine .cons (fun entry hEntry => ?_) ih
        rcases mem_putEntry hEntry with rfl | hIn
        · exact (List.le_iff_lt_or_eq.mp (List.not_lt.mp hNotLess)).resolve_right (Ne.symm hOther)
        · exact hFirst entry hIn

structure Props where
  entries : List (Bytes × Bytes)
  sorted : entries.Pairwise fun a b => a.1 < b.1
  deriving DecidableEq

def Props.empty : Props := ⟨[], .nil⟩

def Props.put (props : Props) (key value : Bytes) : Props :=
  ⟨putEntry key value props.entries, putEntry_sorted props.sorted⟩

structure Message where
  event : Bytes
  data : Bytes
  props : Props
  deriving DecidableEq

def Message.zero : Message := ⟨[], [], .empty⟩

def Message.clone (m : Message) : Message :=
  ⟨m.event, m.data, m.props⟩

def isNameRune (c : Char) : Bool :=
  'a' ≤ c && c ≤ 'z' || 'A' ≤ c && c ≤ 'Z' || '0' ≤ c && c ≤ '9' || c == '.' || c == '_' || c == '-' ||
    c == ':'

def validName (value : Bytes) : Bool := (repaired value).all isNameRune

def validEvent (event : Bytes) : Bool :=
  event ≠ ascii "none" && 0 < event.length && event.length ≤ maxEventBytes && validName event

inductive MessageFault where
  | invalidEvent (event : Bytes)
  | dataTooLong
  | tooManyProps
  | invalidKey (key : Bytes)
  | valueTooLong (key : Bytes)
  deriving DecidableEq, Repr

def validateEntry (entry : Bytes × Bytes) : Option MessageFault :=
  if entry.1.length = 0 ∨ maxPropKeyBytes < entry.1.length ∨ !validName entry.1 then
    some (.invalidKey entry.1)
  else if maxPropValueBytes < entry.2.length then some (.valueTooLong entry.1)
  else none

def Message.validate (m : Message) : Option MessageFault :=
  if !validEvent m.event then some (.invalidEvent m.event)
  else if maxMessageBytes < m.data.length then some .dataTooLong
  else if maxMessageProps < m.props.entries.length then some .tooManyProps
  else m.props.entries.findSome? validateEntry

/-! ## Envelopes -/

def wireProtocolVersion : Int := 1

structure WireEnvelope where
  version : Int
  source : Bytes
  target : Bytes
  message : Option Message

/-- A byte slice as `json.Marshal` writes it. -/
def bytesText (data : Bytes) : List Char := '"' :: Base64.encode data ++ ['"']

def omitEmpty (empty : Bool) (name : String) (text : List Char) : List (Bytes × List Char) :=
  if empty then [] else [(ascii name, text)]

def Props.text (props : Props) : List Char :=
  objectText (props.entries.map fun entry => (entry.1, stringText entry.2))

def Message.text (m : Message) : List Char :=
  objectText ((ascii "event", stringText m.event) ::
    (omitEmpty m.data.isEmpty "data" (bytesText m.data) ++
      omitEmpty m.props.entries.isEmpty "props" m.props.text))

def WireEnvelope.text (e : WireEnvelope) : List Char :=
  objectText ((ascii "version", decimal e.version) :: (ascii "source", stringText e.source) ::
    (omitEmpty e.target.isEmpty "target" (stringText e.target) ++
      [(ascii "message", e.message.elim ['n', 'u', 'l', 'l'] Message.text)]))

def unmarshalText : Doc → Bytes → Option Bytes
  | .null, old => some old
  | .str s, _ => some (utf8 s)
  | _, _ => none

def unmarshalOctet : Doc → Option UInt8
  | .null => some 0
  | .int n => if 0 ≤ n ∧ n < 256 then some (UInt8.ofNat n.toNat) else none
  | _ => none

def unmarshalBytes : Doc → Bytes → Option Bytes
  | .null, _ => some []
  | .str s, _ => Base64.decode s
  | .arr elements, _ => elements.mapM unmarshalOctet
  | _, _ => none

def putMembers : List (List Char × Doc) → Props → Option Props
  | [], props => some props
  | (key, doc) :: members, props => do
    let value ← unmarshalText doc []
    putMembers members (props.put (utf8 key) value)

def unmarshalProps : Doc → Props → Option Props
  | .null, _ => some .empty
  | .obj members, props => putMembers members props
  | _, _ => none

section Known

variable {σ : Type} (fields : List (StructField σ))

def unmarshalKnown : List (List Char × Doc) → σ → Option σ
  | [], s => some s
  | (key, doc) :: members, s => match lookupField fields key with
    | none => unmarshalKnown members s
    | some field => (field.store doc s).bind (unmarshalKnown members)

def unmarshalKnownStruct : Doc → σ → Option σ
  | .null, s => some s
  | .obj members, s => unmarshalKnown fields members s
  | _, _ => none

end Known

def messageFields : List (StructField Message) :=
  [structField "event" unmarshalText (·.event) fun v m => { m with event := v },
    structField "data" unmarshalBytes (·.data) fun v m => { m with data := v },
    structField "props" unmarshalProps (·.props) fun v m => { m with props := v }]

def envelopeFields : List (StructField WireEnvelope) :=
  [structField "version" unmarshalInt (·.version) fun v e => { e with version := v },
    structField "source" unmarshalText (·.source) fun v e => { e with source := v },
    structField "target" unmarshalText (·.target) fun v e => { e with target := v },
    structField "message" (unmarshalPointer .zero (unmarshalKnownStruct messageFields)) (·.message)
      fun v e => { e with message := v }]

/-- `json.Unmarshal` into an envelope, for payloads as the nodes write them: invalid UTF-8, a lone
surrogate or a number that is no integer, which `json.Unmarshal` lets pass in a member that it does not
know, is refused here. -/
def unmarshalEnvelope (payload : Bytes) : Option WireEnvelope := do
  let (doc, tail) ← decode payload
  if tail.all isWhitespace then unmarshalKnownStruct envelopeFields doc ⟨0, [], [], none⟩ else none

/-! ## Nodes -/

structure Config where
  nodeID : Bytes
  serverVersion : Bytes

/-- `strings.TrimSpace`, as the runes of its result. -/
def trimSpace (value : Bytes) : List (Option Char) := trimFunc (·.any isUnicodeSpace) (runes value)

def validDiscoveryNodeID (value : List (Option Char)) : Bool :=
  value.all fun r => isNameRune (r.getD '\ufffd') && r.getD '\ufffd' != ':'

def localNodeMeta (c : Config) : List Char :=
  objectText [(ascii "node_id", stringText c.nodeID), (ascii "server_version", stringText c.serverVersion),
    (ascii "protocol_min", decimal wireProtocolVersion), (ascii "protocol_max", decimal wireProtocolVersion)]

def Config.valid (c : Config) : Bool :=
  !(trimSpace c.nodeID).isEmpty && runesLength (trimSpace c.nodeID) ≤ 128 &&
    validDiscoveryNodeID (trimSpace c.nodeID) && !(trimSpace c.serverVersion).isEmpty &&
    runesLength (trimSpace c.serverVersion) ≤ 128 && (trimSpace c.serverVersion).all Option.isSome &&
    (utf8 (localNodeMeta c)).length ≤ 512

inductive TransportState where
  | created | started | stopping | stopped
  deriving DecidableEq, Repr

/-- A node, with the error that each handler returns for a message. -/
structure Transport (ε : Type) where
  cfg : Config
  state : TransportState
  handlers : Bytes → Option (Message → Option ε)

/-- A message that was handed to the handlers, and the error that came back. -/
abbrev Dispatch (ε : Type) := Message × Option ε

inductive SendFault where
  | invalid (fault : MessageFault)
  | notStarted | stopped
  | wireTooLong
  deriving DecidableEq, Repr

inductive Sent (ε : Type) where
  | handled (dispatch : Dispatch ε)
  | payload (bytes : Bytes)

inductive Refusal where
  | invalidSize | invalidEnvelope | rejected | wrongTarget | invalidMessage
  deriving DecidableEq, Repr

namespace Transport

variable {ε : Type}

def dispatchLocal (t : Transport ε) (m : Message) : Dispatch ε :=
  (m, (t.handlers m.event).bind fun handler => handler m)

def encodeEnvelope (t : Transport ε) (target : Bytes) (m : Message) : Except SendFault Bytes :=
  let payload := utf8 (WireEnvelope.text ⟨wireProtocolVersion, t.cfg.nodeID, target, some m.clone⟩)
  if maxWireBytes < payload.length then .error .wireTooLong else .ok payload

def validateSend (t : Transport ε) (m : Message) : Except SendFault Unit :=
  match m.validate with
  | some fault => .error (.invalid fault)
  | none => match t.state with
    | .started => .ok ()
    | .stopping => .error .stopped
    | .stopped => .error .stopped
    | .created => .error .notStarted

/-- `SendToNode`, up to the choice of the member that gets the payload. -/
def sendToNode (t : Transport ε) (nodeID : Bytes) (m : Message) : Except SendFault (Sent ε) := do
  t.validateSend m
  if nodeID = t.cfg.nodeID then
    pure (.handled (t.dispatchLocal m.clone))
  else
    let payload ← t.encodeEnvelope nodeID m
    pure (.payload payload)

def notifyMsg (t : Transport ε) (payload : Bytes) : Except Refusal (Dispatch ε) :=
  if payload.length = 0 ∨ maxWireBytes < payload.length then .error .invalidSize
  else match unmarshalEnvelope payload with
    | none => .error .invalidEnvelope
    | some envelope => match envelope.message with
      | none => .error .rejected
      | some m =>
        if envelope.version ≠ wireProtocolVersion ∨ envelope.source = [] ∨
            envelope.source = t.cfg.nodeID then .error .rejected
        else if envelope.target ≠ [] ∧ envelope.target ≠ t.cfg.nodeID then .error .wrongTarget
        else if m.validate.isSome then .error .invalidMessage
        else .ok (t.dispatchLocal m.clone)

end Transport

end Proctor.Cluster
