import Proctor.Cluster.Message

/-! # What reaches a peer

An envelope is read back with every string repaired: event names, property keys and node names are
ASCII and stay as they are, the data comes back from its base64 text, and a property value is kept
exactly when it is UTF-8. The size of the payload is a sum over the fields, to be compared with the
limit that both ends have. -/
namespace Proctor.Cluster

open Json List
open Option (bind_eq_bind bind_some map_some)

/-! ## Names -/

theorem isNameRune_ne {c : Char} (h : isNameRune c) : c ≠ '\ufffd' := by
  rintro rfl
  exact absurd h (by decide)

theorem utf8_repaired_of_validName {name : Bytes} (h : validName name) :
    utf8 (repaired name) = name := by
  refine utf8_repaired_of_clean fun hIn => ?_
  exact isNameRune_ne (all_eq_true.mp h _ hIn) rfl

theorem mem_dropWhile_or {α : Type} {p : α → Bool} {l : List α} {x : α} (h : x ∈ l) :
    p x = true ∨ x ∈ l.dropWhile p := by
  rw [← takeWhile_append_dropWhile (p := p) (l := l), mem_append] at h
  exact h.imp_left mem_takeWhile_imp

theorem mem_trimFunc_or {α : Type} {cut : α → Bool} {l : List α} {x : α} (h : x ∈ l) :
    cut x = true ∨ x ∈ trimFunc cut l := by
  rcases mem_dropWhile_or (p := cut) h with hCut | hKept
  · exact .inl hCut
  · exact (mem_dropWhile_or (mem_reverse.mpr hKept)).imp_right mem_reverse.mpr

theorem Config.utf8_nodeID {c : Config} (h : c.valid) : utf8 (repaired c.nodeID) = c.nodeID := by
  simp only [Config.valid, Bool.and_eq_true] at h
  have hNames := all_eq_true.mp h.1.1.1.1.2
  refine utf8_repaired_of_clean fun hIn => ?_
  obtain ⟨rune, hRune, hChar⟩ := mem_map.mp hIn
  rcases @mem_trimFunc_or _ (·.any isUnicodeSpace) _ _ hRune with hSpace | hKept
  · cases rune with
    | none => cases hSpace
    | some c =>
      obtain rfl : c = '\ufffd' := hChar
      exact absurd hSpace (by decide)
  · have hName := hNames rune hKept
    rw [Bool.and_eq_true, hChar] at hName
    exact isNameRune_ne hName.1 rfl

theorem Config.nodeID_ne_nil {c : Config} (h : c.valid) : c.nodeID ≠ [] := by
  intro hNil
  simp [Config.valid, hNil, trimSpace, trimFunc, runes, runesFrom] at h

/-! ## Reading back -/

theorem bytesText_writes (data : Bytes) : Writes (bytesText data) (.str (Base64.encode data)) := by
  have hPlain : stringText (utf8 (Base64.encode data)) = bytesText data := by
    refine stringText_plain fun c hc => ?_
    rcases Base64.mem_encode hc with rfl | ⟨n, hn, rfl⟩
    · decide
    have hDigit := Base64.digit_plain hn
    refine ⟨hDigit.2.2.2.1, hDigit.2.2.2.2.2.1, hDigit.2.2.2.2.2.2.1, ?_⟩
    rw [← Bool.not_eq_true, isHtmlEscaped_iff]
    rintro (hIs | hIs | hIs | hIs | hIs)
    · exact hDigit.2.2.2.2.2.2.2.1 hIs
    · exact hDigit.2.2.2.2.2.2.2.2.1 hIs
    · exact hDigit.2.2.2.2.2.2.2.2.2 hIs
    · exact absurd hDigit.2.2.2.2.1 (by rw [hIs]; decide)
    · exact absurd hDigit.2.2.2.2.1 (by rw [hIs]; decide)
  have hWrites := writes_string (utf8 (Base64.encode data))
  rwa [hPlain, repaired_utf8] at hWrites

def propsMember (entry : Bytes × Bytes) : Member :=
  ⟨entry.1, stringText entry.2, .str (repaired entry.2), writes_string entry.2⟩

theorem Props.writes (props : Props) : Writes props.text
    (.obj (props.entries.map fun entry => (repaired entry.1, .str (repaired entry.2)))) := by
  have hWrites := writes_object (props.entries.map propsMember)
  rwa [map_map, map_map] at hWrites

def optionalMember (empty : Bool) (name : String) {text : List Char} {doc : Doc} (h : Writes text doc) :
    List Member :=
  if empty then [] else [⟨ascii name, text, doc, h⟩]

def messageMembers (m : Message) : List Member :=
  ⟨ascii "event", stringText m.event, _, writes_string m.event⟩ ::
    (optionalMember m.data.isEmpty "data" (bytesText_writes m.data) ++
      optionalMember m.props.entries.isEmpty "props" m.props.writes)

theorem optionalMember_texts (empty : Bool) (name : String) {text : List Char} {doc : Doc}
    (h : Writes text doc) :
    (optionalMember empty name h).map (fun m => (m.key, m.text)) = omitEmpty empty name text := by
  cases empty <;> rfl

theorem optionalMember_docs (empty : Bool) (name : String) {text : List Char} {doc : Doc}
    (h : Writes text doc) : (optionalMember empty name h).map (fun m => (repaired m.key, m.doc)) =
      if empty then [] else [(name.toList, doc)] := by
  cases empty with
  | true => rfl
  | false =>
    change [(repaired (ascii name), doc)] = [(name.toList, doc)]
    rw [ascii, repaired_utf8]

def Message.document (m : Message) : Doc :=
  .obj (("event".toList, .str (repaired m.event)) ::
    ((if m.data.isEmpty then [] else [("data".toList, .str (Base64.encode m.data))]) ++
      if m.props.entries.isEmpty then [] else [("props".toList,
        .obj (m.props.entries.map fun entry => (repaired entry.1, .str (repaired entry.2))))]))

theorem Message.writes (m : Message) : Writes m.text m.document := by
  have hWrites := writes_object (messageMembers m)
  rw [messageMembers, map_cons, map_cons, map_append, map_append,
    optionalMember_texts, optionalMember_texts, optionalMember_docs, optionalMember_docs] at hWrites
  exact hWrites

def repairEntry (entry : Bytes × Bytes) : Bytes × Bytes := (entry.1, utf8 (repaired entry.2))

theorem putEntry_last {key value : Bytes} {entries : List (Bytes × Bytes)}
    (h : ∀ entry ∈ entries, entry.1 < key) : putEntry key value entries = entries ++ [(key, value)] := by
  induction entries with
  | nil => rfl
  | cons first rest ih =>
    have hFirst := h first mem_cons_self
    have hLess : ¬ key < first.1 := List.not_lt.mpr (List.le_of_lt hFirst)
    have hOther : key ≠ first.1 := by
      rintro rfl
      exact List.lt_irrefl _ hFirst
    rw [putEntry, if_neg hLess, if_neg hOther, ih fun entry hIn => h entry (mem_cons_of_mem _ hIn)]
    rfl

theorem putMembers_entries {rest : List (Bytes × Bytes)} (props : Props)
    (hKeys : ∀ entry ∈ rest, utf8 (repaired entry.1) = entry.1)
    (hAfter : ∀ before ∈ props.entries, ∀ entry ∈ rest, before.1 < entry.1)
    (hSorted : rest.Pairwise fun a b => a.1 < b.1) :
    ∃ read, putMembers (rest.map fun entry => (repaired entry.1, .str (repaired entry.2))) props = some read ∧
      read.entries = props.entries ++ rest.map repairEntry := by
  induction rest generalizing props with
  | nil => exact ⟨props, rfl, (append_nil _).symm⟩
  | cons entry rest ih =>
    obtain ⟨hFirst, hRest⟩ := pairwise_cons.mp hSorted
    have hPut : (props.put entry.1 (utf8 (repaired entry.2))).entries =
        props.entries ++ [repairEntry entry] :=
      putEntry_last fun before hBefore => hAfter before hBefore entry mem_cons_self
    obtain ⟨read, hRead, hEnts⟩ := ih (props.put entry.1 (utf8 (repaired entry.2)))
      (fun e he => hKeys e (mem_cons_of_mem _ he)) (fun before hBefore e he => by
        rw [hPut] at hBefore
        rcases mem_append.mp hBefore with hOld | hNew
        · exact hAfter before hOld e (mem_cons_of_mem _ he)
        · rw [mem_singleton.mp hNew]
          exact hFirst e he) hRest
    refine ⟨read, ?_, ?_⟩
    · rw [map_cons, putMembers]
      simp only [unmarshalText, hKeys entry mem_cons_self, bind_eq_bind, bind_some]
      exact hRead
    · rw [hEnts, hPut, append_assoc]
      rfl

section Known

variable {σ α : Type} {fields : List (StructField σ)}

theorem unmarshalKnown_member {field : StructField σ} {key : List Char} {doc : Doc} {s : σ} (s' : σ)
    (rest : List (List Char × Doc)) (hField : lookupField fields key = some field)
    (hStore : field.store doc s = some s') :
    unmarshalKnown fields ((key, doc) :: rest) s = unmarshalKnown fields rest s' := by
  rw [unmarshalKnown, hField]
  simp only [hStore, bind_some]

end Known

theorem Message.read_document {m : Message} (hEvent : utf8 (repaired m.event) = m.event)
    (hKeys : ∀ entry ∈ m.props.entries, utf8 (repaired entry.1) = entry.1) :
    ∃ read, unmarshalKnownStruct messageFields m.document .zero = some ⟨m.event, m.data, read⟩ ∧
      read.entries = m.props.entries.map repairEntry := by
  obtain ⟨read, hRead, hEnts⟩ := putMembers_entries .empty hKeys nofun m.props.sorted
  have hFirst : ∀ rest, unmarshalKnown messageFields (("event", .str (repaired m.event)) :: rest) .zero =
      unmarshalKnown messageFields rest ⟨m.event, [], .empty⟩ := fun rest =>
    unmarshalKnown_member _ rest rfl (by
      simp only [structField, unmarshalText, hEvent, map_some]
      rfl)
  have hData : ∀ rest, unmarshalKnown messageFields
      ((if m.data.isEmpty then [] else [("data".toList, .str (Base64.encode m.data))]) ++ rest)
        ⟨m.event, [], .empty⟩ = unmarshalKnown messageFields rest ⟨m.event, m.data, .empty⟩ := by
    intro rest
    cases hEmpty : m.data with
    | nil => rfl
    | cons byte more =>
      refine unmarshalKnown_member _ rest rfl ?_
      simp only [structField, unmarshalBytes, Base64.decode_encode, map_some]
  refine ⟨read, ?_, hEnts⟩
  rw [Message.document, unmarshalKnownStruct, hFirst, hData]
  cases hEmpty : m.props.entries with
  | nil =>
    have hNone : read = .empty := by
      cases read
      simp_all [Props.empty]
    rw [hNone]
    rfl
  | cons entry more =>
    rw [hEmpty] at hRead
    refine unmarshalKnown_member _ [] rfl ?_
    simp only [structField, unmarshalProps, hRead, map_some]

def envelopeMembers (source target : Bytes) (m : Message) : List Member :=
  ⟨ascii "version", decimal wireProtocolVersion, _, writes_int wireProtocolVersion⟩ ::
    ⟨ascii "source", stringText source, _, writes_string source⟩ ::
      (optionalMember target.isEmpty "target" (writes_string target) ++
        [⟨ascii "message", m.text, _, m.writes⟩])

theorem WireEnvelope.writes (source target : Bytes) (m : Message) :
    Writes (WireEnvelope.text ⟨wireProtocolVersion, source, target, some m⟩)
      (.obj (("version".toList, .int wireProtocolVersion) :: ("source".toList, .str (repaired source)) ::
        ((if target.isEmpty then [] else [("target".toList, .str (repaired target))]) ++
          [("message".toList, m.document)]))) := by
  have hWrites := writes_object (envelopeMembers source target m)
  rw [envelopeMembers, map_cons, map_cons, map_cons, map_cons, map_append,
    map_append, optionalMember_texts, optionalMember_docs] at hWrites
  simp only [ascii, repaired_utf8, map_cons, map_nil] at hWrites
  exact hWrites

theorem unmarshalEnvelope_text {source target : Bytes} {m : Message}
    (hSrc : utf8 (repaired source) = source) (hTarget : utf8 (repaired target) = target)
    (hEvent : utf8 (repaired m.event) = m.event)
    (hKeys : ∀ entry ∈ m.props.entries, utf8 (repaired entry.1) = entry.1) :
    ∃ read, unmarshalEnvelope (utf8 (WireEnvelope.text ⟨wireProtocolVersion, source, target, some m⟩)) =
        some ⟨wireProtocolVersion, source, target, some ⟨m.event, m.data, read⟩⟩ ∧
      read.entries = m.props.entries.map repairEntry := by
  obtain ⟨read, hRead, hEnts⟩ := Message.read_document hEvent hKeys
  obtain ⟨tail, hDec, hTail⟩ := (WireEnvelope.writes source target m).decode
  refine ⟨read, ?_, hEnts⟩
  have hSpaces : tail.all isWhitespace := all_eq_true.mpr hTail
  have hPointer : ∀ e : WireEnvelope, e.message = none → unmarshalKnown envelopeFields
      [("message", m.document)] e = some { e with message := some ⟨m.event, m.data, read⟩ } := by
    intro e hNone
    rw [unmarshalKnown_member { e with message := some ⟨m.event, m.data, read⟩ } [] rfl]
    · rfl
    simp only [structField, hNone]
    rw [show m.document = .obj _ from rfl, unmarshalPointer, Option.getD_none,
      ← show m.document = .obj _ from rfl, hRead]
    · rfl
    · nofun
  rw [unmarshalEnvelope, hDec]
  simp only [bind_eq_bind, bind_some, hSpaces, if_true, unmarshalKnownStruct]
  rw [unmarshalKnown_member ⟨wireProtocolVersion, [], [], none⟩ _ rfl rfl,
    unmarshalKnown_member ⟨wireProtocolVersion, source, [], none⟩ _ rfl
      (by simp only [structField, unmarshalText, hSrc, map_some])]
  cases target with
  | nil => exact hPointer _ rfl
  | cons byte more =>
    simp only [isEmpty_cons, Bool.false_eq_true, if_false, cons_append, nil_append]
    rw [unmarshalKnown_member ⟨wireProtocolVersion, source, byte :: more, none⟩ _ rfl
      (by simp only [structField, unmarshalText, hTarget, map_some])]
    exact hPointer _ rfl

/-! ## The size of a payload -/

/-- The octets of a message: `{"event":""}`, then `,"data":""` and `,"props":{}` where they are
there. -/
def Message.wireBytes (m : Message) : Nat :=
  12 + stringSize m.event +
    (if m.data.isEmpty then 0 else 10 + 4 * ((m.data.length + 2) / 3)) +
    if m.props.entries.isEmpty then 0
    else 11 + (m.props.entries.map fun entry => stringSize entry.1 + stringSize entry.2 + 5).sum +
      (m.props.entries.length - 1)

/-- The octets of an envelope: `{"version":1,"source":"","message":}` and, for one node, `,"target":""`. -/
def wireBytes (source target : Bytes) (m : Message) : Nat :=
  36 + stringSize source + (if target.isEmpty then 0 else 12 + stringSize target) + m.wireBytes

theorem size_bytesText (data : Bytes) : size (bytesText data) = 4 * ((data.length + 2) / 3) + 2 := by
  have hAscii : ∀ c ∈ bytesText data, c.toNat < 128 := by
    intro c hc
    simp only [bytesText, cons_append, mem_cons, mem_append, not_mem_nil, or_false] at hc
    rcases hc with rfl | hDigit | rfl
    · decide
    · rcases Base64.mem_encode hDigit with rfl | ⟨n, hn, rfl⟩
      · decide
      · exact (Base64.digit_plain hn).2.2.2.2.1
    · decide
  rw [size, utf8_ascii hAscii]
  simp [bytesText, Base64.length_encode]

theorem Props.size_text (props : Props) : size props.text =
    (props.entries.map fun entry => stringSize entry.1 + stringSize entry.2 + 5).sum +
      (props.entries.length - 1) + 2 := by
  rw [Props.text, size_objectText, map_map, length_map]
  congr 4
  funext entry
  simp only [Function.comp_apply, size_stringText]
  omega

theorem Message.size_text (m : Message) : size m.text = m.wireBytes := by
  have hEvent : stringSize (ascii "event") = 5 := by decide
  have hData : stringSize (ascii "data") = 4 := by decide
  have hProps : stringSize (ascii "props") = 5 := by decide
  rw [Message.text, size_objectText, Message.wireBytes]
  cases m.data.isEmpty <;> cases m.props.entries.isEmpty <;>
    simp only [omitEmpty, map_cons, map_nil, sum_cons, sum_nil, length_cons,
      length_nil, cons_append, nil_append, size_stringText, size_bytesText,
      Props.size_text, hEvent, hData, hProps, if_true, if_false, Bool.false_eq_true] <;> omega

theorem size_envelope (source target : Bytes) (m : Message) :
    size (WireEnvelope.text ⟨wireProtocolVersion, source, target, some m⟩) = wireBytes source target m := by
  have hVersion : stringSize (ascii "version") = 7 := by decide
  have hSrc : stringSize (ascii "source") = 6 := by decide
  have hTarget : stringSize (ascii "target") = 6 := by decide
  have hMessage : stringSize (ascii "message") = 7 := by decide
  have hNum : size (decimal wireProtocolVersion) = 1 := by decide
  rw [WireEnvelope.text, size_objectText, wireBytes]
  cases target.isEmpty <;>
    simp only [omitEmpty, map_cons, map_nil, sum_cons, sum_nil, length_cons,
      length_nil, cons_append, nil_append, size_stringText, Option.elim_some,
      Message.size_text, hVersion, hSrc, hTarget, hMessage, hNum, if_true, if_false,
      Bool.false_eq_true] <;> omega

/-! ## Delivery -/

theorem Message.names_of_validate {m : Message} (h : m.validate = none) :
    utf8 (repaired m.event) = m.event ∧
      ∀ entry ∈ m.props.entries, utf8 (repaired entry.1) = entry.1 := by
  unfold Message.validate at h
  split at h
  · cases h
  next hEvent =>
  split at h
  · cases h
  split at h
  · cases h
  simp only [Bool.not_eq_true, Bool.not_eq_false', validEvent, Bool.and_eq_true] at hEvent
  refine ⟨utf8_repaired_of_validName hEvent.2, fun entry hEntry => ?_⟩
  have hNone := findSome?_eq_none_iff.mp h entry hEntry
  unfold validateEntry at hNone
  split at hNone
  · cases hNone
  next hKey =>
  simp only [not_or, Bool.not_eq_true, Bool.not_eq_false'] at hKey
  exact utf8_repaired_of_validName hKey.2.2

section Delivery

variable {ε : Type}

/-- The message that `sender` encodes comes out of `receiver` as its own node would handle it. -/
def Delivers (sender receiver : Transport ε) (target : Bytes) (m : Message) : Prop :=
  ∃ payload dispatch, sender.encodeEnvelope target m = .ok payload ∧
    receiver.notifyMsg payload = .ok dispatch ∧ dispatch.1 = m ∧
    (receiver.sendToNode receiver.cfg.nodeID m).toOption = some (.handled dispatch)

theorem notifyMsg_envelope {sender receiver : Transport ε} {target : Bytes} {m : Message}
    (hSender : sender.cfg.valid) (hReceiver : receiver.cfg.valid)
    (hDist : sender.cfg.nodeID ≠ receiver.cfg.nodeID)
    (hTarget : target = [] ∨ target = receiver.cfg.nodeID) (hValid : m.validate = none)
    (hFits : wireBytes sender.cfg.nodeID target m ≤ maxWireBytes) :
    ∃ read : Props, read.entries = m.props.entries.map repairEntry ∧ receiver.notifyMsg
          (utf8 (WireEnvelope.text ⟨wireProtocolVersion, sender.cfg.nodeID, target, some m⟩)) =
        if (Message.validate ⟨m.event, m.data, read⟩).isSome then .error .invalidMessage
        else .ok (receiver.dispatchLocal ⟨m.event, m.data, read⟩) := by
  obtain ⟨hEvent, hKeys⟩ := Message.names_of_validate hValid
  have hTargetName : utf8 (repaired target) = target := by
    rcases hTarget with rfl | rfl
    · rfl
    · exact Config.utf8_nodeID hReceiver
  obtain ⟨read, hRead, hEnts⟩ :=
    unmarshalEnvelope_text (Config.utf8_nodeID hSender) hTargetName hEvent hKeys
  refine ⟨read, hEnts, ?_⟩
  have hSize := size_envelope sender.cfg.nodeID target m
  rw [size] at hSize
  have hLen : ¬(wireBytes sender.cfg.nodeID target m = 0 ∨
      maxWireBytes < wireBytes sender.cfg.nodeID target m) := by
    have hPositive : 36 ≤ wireBytes sender.cfg.nodeID target m := by
      unfold wireBytes
      omega
    omega
  have hSrc : ¬(wireProtocolVersion ≠ wireProtocolVersion ∨ sender.cfg.nodeID = [] ∨
      sender.cfg.nodeID = receiver.cfg.nodeID) := by
    rintro (h | h | h)
    · exact h rfl
    · exact Config.nodeID_ne_nil hSender h
    · exact hDist h
  have hOwn : ¬(target ≠ [] ∧ target ≠ receiver.cfg.nodeID) := by
    rintro ⟨hSome, hOther⟩
    exact hTarget.elim hSome hOther
  rw [Transport.notifyMsg, hSize, if_neg hLen, hRead]
  simp only [if_neg hSrc, if_neg hOwn, Message.clone]

theorem repair_entries_iff (entries : List (Bytes × Bytes)) :
    entries.map repairEntry = entries ↔ ∀ entry ∈ entries, utf8Valid entry.2 := by
  constructor
  · intro h entry hEntry
    obtain ⟨before, hBefore, hSame⟩ := mem_map.mp (h.symm ▸ hEntry)
    rw [utf8Valid_iff, ← hSame]
    exact ⟨_, rfl⟩
  · intro h
    refine (map_congr_left fun entry hEntry => ?_).trans (map_id entries)
    rw [repairEntry, (utf8_repaired_iff entry.2).mpr (h entry hEntry)]
    rfl

theorem Props.ext_entries {a b : Props} (h : a.entries = b.entries) : a = b := by
  cases b
  cases h
  rfl

/-- A valid message reaches a peer unchanged exactly when its property values are UTF-8 and its
envelope fits the wire limit. -/
theorem valid_message_delivered_iff (sender receiver : Transport ε) (target : Bytes) (m : Message)
    (hSender : sender.cfg.valid = true) (hReceiver : receiver.cfg.valid = true)
    (hStarted : sender.state = .started ∧ receiver.state = .started)
    (hDistinct : sender.cfg.nodeID ≠ receiver.cfg.nodeID)
    (hTarget : target = [] ∨ target = receiver.cfg.nodeID) (hValid : m.validate = none) :
    Delivers sender receiver target m ↔ (∀ entry ∈ m.props.entries, utf8Valid entry.2 = true) ∧
        wireBytes sender.cfg.nodeID target m ≤ maxWireBytes := by
  have hSize := size_envelope sender.cfg.nodeID target m
  rw [size] at hSize
  by_cases hFits : wireBytes sender.cfg.nodeID target m ≤ maxWireBytes
  · obtain ⟨read, hEnts, hNotify⟩ :=
      notifyMsg_envelope hSender hReceiver hDistinct hTarget hValid hFits
    have hEnc : sender.encodeEnvelope target m =
        .ok (utf8 (WireEnvelope.text ⟨wireProtocolVersion, sender.cfg.nodeID, target, some m⟩)) := by
      simp only [Transport.encodeEnvelope, Message.clone, hSize, Nat.not_lt.mpr hFits, if_false]
    constructor
    · rintro ⟨payload, dispatch, hPayload, hDispatch, hSame, -⟩
      rw [hEnc] at hPayload
      cases hPayload
      rw [hNotify] at hDispatch
      split at hDispatch
      · cases hDispatch
      cases hDispatch
      refine ⟨(repair_entries_iff _).mp ?_, hFits⟩
      rw [← hEnts]
      exact congrArg (fun m : Message => m.props.entries) hSame
    · rintro ⟨hTexts, -⟩
      obtain rfl : read = m.props :=
        Props.ext_entries (hEnts.trans ((repair_entries_iff _).mpr hTexts))
      have hSelf : receiver.sendToNode receiver.cfg.nodeID m = .ok (.handled (receiver.dispatchLocal m)) := by
        simp only [Transport.sendToNode, Transport.validateSend, hValid, hStarted.2, Message.clone]
        rfl
      refine ⟨_, receiver.dispatchLocal m, hEnc, ?_, rfl, by rw [hSelf]; rfl⟩
      rw [hNotify, if_neg (by rw [hValid]; decide)]
  · constructor
    · rintro ⟨payload, -, hPayload, -⟩
      simp only [Transport.encodeEnvelope, Message.clone, hSize, Nat.not_le.mp hFits, if_true] at hPayload
      cases hPayload
    · rintro ⟨-, hWire⟩
      exact absurd hWire hFits

end Delivery

def node (name : String) : Transport Unit := ⟨⟨ascii name, ascii "1"⟩, .started, fun _ => none⟩

def plainMessage (data : Bytes) : Message := ⟨ascii "cache", data, .empty⟩

def propMessage (value : Bytes) : Message :=
  ⟨ascii "cache", [1, 2, 3], ⟨[(ascii "k", value)], List.pairwise_singleton _ _⟩⟩

theorem plainMessage_valid {data : Bytes} (h : data.length ≤ maxMessageBytes) :
    (plainMessage data).validate = none := by
  have hEvent : validEvent (ascii "cache") := by decide
  have hLen : ¬ maxMessageBytes < data.length := not_lt.mpr h
  simp [Message.validate, plainMessage, hEvent, hLen, Props.empty]

theorem plainMessage_tooLong {data : Bytes} (t : Transport Unit)
    (h : maxWireBytes < 4 * ((data.length + 2) / 3)) :
    t.encodeEnvelope [] (plainMessage data) = .error .wireTooLong := by
  have hSize := size_envelope t.cfg.nodeID [] (plainMessage data)
  have hLong : maxWireBytes < wireBytes t.cfg.nodeID [] (plainMessage data) := by
    cases data with
    | nil => exact absurd h (by decide)
    | cons byte more =>
      have hData : 10 + 4 * (((byte :: more).length + 2) / 3) ≤ (plainMessage (byte :: more)).wireBytes := by
        simp only [Message.wireBytes, plainMessage, isEmpty_cons, Bool.false_eq_true, if_false]
        omega
      unfold wireBytes
      omega
  rw [← hSize] at hLong
  exact if_pos hLong

/-- Data of the greatest length is refused on the wire, as base64 makes a third more of it; and a
property value that is not UTF-8 arrives as another one. -/
theorem valid_message_lost_or_changed :
    ((plainMessage (List.replicate maxMessageBytes 0)).validate = none ∧
      (node "a").encodeEnvelope [] (plainMessage (List.replicate maxMessageBytes 0)) = .error .wireTooLong) ∧
    (propMessage [0xff]).validate = none ∧
      (((node "a").encodeEnvelope [] (propMessage [0xff])).toOption.bind fun payload =>
          ((node "b").notifyMsg payload).toOption.map (·.1.props.entries)) =
        some [(ascii "k", [0xef, 0xbf, 0xbd])] := by
  refine ⟨⟨plainMessage_valid ?_, plainMessage_tooLong _ ?_⟩, by decide +kernel, by decide +kernel⟩
  · rw [length_replicate]
  · rw [length_replicate]
    decide

theorem valid_message_delivered_iff_small :
    Delivers (node "a") (node "b") (ascii "b") (propMessage (ascii "v")) :=
  (valid_message_delivered_iff (node "a") (node "b") (ascii "b") (propMessage (ascii "v")) (by decide +kernel)
    (by decide +kernel) ⟨rfl, rfl⟩ (by decide) (.inr rfl) (by decide +kernel)).mpr
    ⟨by decide +kernel, by decide +kernel⟩

end Proctor.Cluster
