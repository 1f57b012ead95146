import Proctor.WebSocket.Hub
import Proctor.Recent.Basic

/-! # What an identity keeps and what a resume replays

Along every run the events kept under an identity are the most recent of those ever numbered under
it, and what a connection has written and queued is a consecutive run of them. -/
namespace Proctor.WebSocket

open Transition List Option Function

variable {κ τ ι β : Type}

/-! ## Kept events -/

variable {issued : List (Event ι β)} {e : Event ι β} {history : List (Event ι β)}

/-- The sequences of the issued events are 1, 2, 3 and so on. -/
abbrev Numbered (issued : List (Event ι β)) : Prop := Recent.Numbered (fun e => e.sequence.toNat) 1 issued

theorem Numbered.sequence (h : Numbered issued) {i : Nat} (he : issued[i]? = some e) :
    e.sequence = (i : Int) + 1 := by
  have hNumber : e.sequence.toNat = 1 + i := Recent.Numbered.number_of_getElem? h he
  omega

theorem Numbered.filter_drop (h : Numbered issued) {k r : Nat} (hk : k ≤ r) :
    ((issued.drop k).filter fun e => e.sequence > (r : Int)) = issued.drop r := by
  have hLater := Recent.Numbered.filter_lt (Recent.Numbered.drop h k) r
  simp only [Int.lt_toNat] at hLater
  rw [hLater, drop_drop]
  congr 1
  omega

structure Kept (history : List (Event ι β)) (nextSequence : Int) (issued : List (Event ι β)) :
    Prop where
  numbered : Numbered issued
  next : nextSequence = issued.length
  recent : history = issued.rtake replayQueueSize
  distinct : (history.map (·.id)).Nodup

theorem trimHistory_eq (history : List (Event ι β)) :
    trimHistory history = history.rtake replayQueueSize := by
  unfold trimHistory List.rtake
  split
  · rfl
  · rename_i hShort
    rw [Nat.sub_eq_zero_of_le (not_lt.mp hShort), drop_zero]

variable {next : Int}

theorem Kept.append (h : Kept history next issued) (he : e.sequence = next + 1)
    (hNew : e.id ∉ history.map (·.id)) :
    Kept (trimHistory (history ++ [e])) (next + 1) (issued ++ [e]) where
  numbered := by
    have hNumber : e.sequence.toNat = 1 + issued.length := by
      rw [he, h.next]
      omega
    exact Recent.Numbered.append h.numbered (Recent.numbered_cons.mpr ⟨hNumber, Recent.numbered_nil⟩)
  next := by
    rw [h.next, length_append, length_singleton]
    omega
  recent := by
    rw [trimHistory_eq, h.recent]
    exact Recent.append_trim (by decide) e
  distinct := by
    rw [trimHistory_eq]
    refine List.Nodup.sublist ((Recent.rtake_suffix _ _).sublist.map _) ?_
    rw [map_append]
    exact nodup_append.mpr ⟨h.distinct, nodup_singleton _, by
      intro a ha b hb hab
      have hSame : a = e.id := hab.trans (mem_singleton.mp hb)
      exact hNew (hSame ▸ ha)⟩

theorem Kept.oldest (h : Kept history next issued) :
    oldestSequence next history = ((issued.length - replayQueueSize : Nat) : Int) := by
  cases hHistory : history with
  | nil =>
    have hLen := congrArg List.length (h.recent.symm.trans hHistory)
    rw [Recent.length_rtake, length_nil] at hLen
    rw [oldestSequence, h.next]
    omega
  | cons first rest =>
    have hFirst : issued[issued.length - replayQueueSize]? = some first := by
      have hHead := congrArg (fun l => l[0]?) (h.recent.symm.trans hHistory)
      simpa [List.rtake, getElem?_drop] using hHead
    have hSeq := h.numbered.sequence hFirst
    rw [oldestSequence]
    omega

/-! ## The invariant of a connection -/

def eventsOf (messages : List (OutboundMessage ι β)) : List (Event ι β) :=
  messages.filterMap fun message => match message with
    | .event e => some e
    | .response => none

@[simp] theorem eventsOf_append (a b : List (OutboundMessage ι β)) :
    eventsOf (a ++ b) = eventsOf a ++ eventsOf b := filterMap_append

@[simp] theorem eventsOf_map (events : List (Event ι β)) : eventsOf (events.map .event) = events := by
  induction events with
  | nil => rfl
  | cons e rest ih => exact congrArg (e :: ·) ih

@[simp] theorem eventsOf_nil : eventsOf ([] : List (OutboundMessage ι β)) = [] := rfl

/-- What holds of a registered connection, given the events numbered under its identity and the
sequence it was registered after. -/
structure ConnSound (c : ConnectionRuntime τ ι β) (issued : List (Event ι β)) (base : Nat) :
    Prop where
  kept : Kept c.history c.nextSequence issued
  base_le : base ≤ issued.length
  ordered : (eventsOf (c.written ++ c.send)).Sublist (issued.drop base)
  complete : c.overflowed = false → ∃ lost, (c.pumping = true → lost = []) ∧
    eventsOf c.written ++ (lost ++ eventsOf c.send) = issued.drop base
  refused : c.overflowed = true → c.replayable = false
  send_le : c.send.length ≤ sendQueueSize

variable {base : Nat}

theorem ConnSound.of_new (h : Kept history next issued) (hBase : base ≤ issued.length)
    (hRecent : issued.length - replayQueueSize ≤ base) (userID sessionID : τ) :
    ConnSound (newConnectionRuntime userID sessionID next history (issued.drop base)) issued base where
  kept := h
  base_le := hBase
  ordered := by
    rw [newConnectionRuntime, nil_append, eventsOf_map]
  complete _ := ⟨[], fun _ => rfl, by
    rw [newConnectionRuntime, eventsOf_nil, nil_append, nil_append, eventsOf_map]⟩
  refused hOverflow := by cases hOverflow
  send_le := by
    simp only [newConnectionRuntime, length_map, length_drop]
    unfold replayQueueSize at hRecent
    unfold sendQueueSize
    omega

variable {c : ConnectionRuntime τ ι β}

/-- A message is queued, or the connection is given up; the events it adds to the queue are the
ones added to the identity. -/
theorem ConnSound.enqueue {added : List (Event ι β)}
    (h : ConnSound c issued base) {c' : ConnectionRuntime τ ι β}
    {message : OutboundMessage ι β} (hAdded : eventsOf [message] = added)
    (hKept : Kept c'.history c'.nextSequence (issued ++ added)) (hSend : c'.send = c.send)
    (hWritten : c'.written = c.written) (hPumping : c'.pumping = c.pumping)
    (hOverflowed : c'.overflowed = c.overflowed) (hReplayable : c'.replayable = c.replayable) :
    ConnSound (c'.enqueueOutbound message) (issued ++ added) base := by
  have hDrop : (issued ++ added).drop base = issued.drop base ++ added :=
    drop_append_of_le_length h.base_le
  have hBase : base ≤ (issued ++ added).length := by
    rw [length_append]
    exact h.base_le.trans (Nat.le_add_right _ _)
  unfold ConnectionRuntime.enqueueOutbound
  split
  · rename_i hRoom
    refine ⟨hKept, hBase, ?_, fun hOpen => ?_, fun hOverflow => ?_, ?_⟩
    · rw [hDrop, hWritten, hSend, ← append_assoc, eventsOf_append, hAdded]
      exact h.ordered.append (List.Sublist.refl _)
    · obtain ⟨lost, hLost, hEvents⟩ := h.complete (hOverflowed ▸ hOpen)
      refine ⟨lost, fun hPump => hLost (hPumping ▸ hPump), ?_⟩
      rw [hDrop, hWritten, hSend, eventsOf_append, hAdded, ← hEvents]
      simp only [append_assoc]
    · rw [hReplayable]
      exact h.refused (hOverflowed ▸ hOverflow)
    · rw [length_append]
      exact hRoom
  · refine ⟨hKept, hBase, ?_, fun hOpen => ?_, fun _ => rfl, ?_⟩
    · rw [hDrop, hWritten, hSend]
      exact h.ordered.trans (sublist_append_left _ _)
    · cases hOpen
    · rw [hSend]
      exact h.send_le

theorem ConnSound.enqueueResponse (h : ConnSound c issued base) :
    ConnSound (c.enqueueOutbound .response) issued base := by
  have hKept : Kept c.history c.nextSequence (issued ++ []) := by
    rw [append_nil]
    exact h.kept
  have hNext : ConnSound (c.enqueueOutbound .response) (issued ++ []) base :=
    h.enqueue rfl hKept rfl rfl rfl rfl rfl
  rwa [append_nil] at hNext

theorem ConnSound.write {c c' : ConnectionRuntime τ ι β}
    (h : ConnSound c issued base) {succeeds : Bool} (hWrite : c.write succeeds = some c') :
    ConnSound c' issued base := by
  unfold ConnectionRuntime.write at hWrite
  split at hWrite
  · rename_i message rest hPumping hSend
    have hLen : rest.length ≤ sendQueueSize := by
      have hFull := h.send_le
      rw [hSend, length_cons] at hFull
      omega
    have hOrd := h.ordered
    rw [hSend] at hOrd
    split at hWrite
    · cases hWrite
      refine ⟨h.kept, h.base_le, by simpa using hOrd, fun hOpen => ?_, h.refused, hLen⟩
      obtain ⟨lost, hLost, hEvents⟩ := h.complete hOpen
      refine ⟨lost, hLost, ?_⟩
      rw [hLost hPumping, hSend] at hEvents
      rw [hLost hPumping, ← hEvents]
      rw [show message :: rest = [message] ++ rest from rfl, eventsOf_append, eventsOf_append]
      simp only [nil_append, append_assoc]
    · cases hWrite
      refine ⟨h.kept, h.base_le, ?_, fun hOpen => ?_, h.refused, hLen⟩
      · refine List.Sublist.trans ?_ hOrd
        rw [show message :: rest = [message] ++ rest from rfl, eventsOf_append, eventsOf_append,
          eventsOf_append]
        exact (List.Sublist.refl _).append (sublist_append_right _ _)
      · obtain ⟨lost, hLost, hEvents⟩ := h.complete hOpen
        refine ⟨lost ++ eventsOf [message], fun hPump => (by cases hPump), ?_⟩
        rw [hSend, show message :: rest = [message] ++ rest from rfl, eventsOf_append] at hEvents
        rw [← hEvents]
        simp only [append_assoc]
  · cases hWrite

theorem ConnSound.closeForGood
    (h : ConnSound c issued base) : ConnSound { c with replayable := false } issued base :=
  ⟨h.kept, h.base_le, h.ordered, h.complete, fun _ => rfl, h.send_le⟩

theorem ConnSound.delivers {base : Nat} (h : ConnSound c issued base) :
    (eventsOf (c.written ++ c.send)).Sublist (issued.drop base) ∧
      (c.overflowed → c.replayable = false) ∧
      (c.overflowed = false → eventsOf c.written <+: issued.drop base ∧
        (c.pumping → eventsOf (c.written ++ c.send) = issued.drop base)) := by
  refine ⟨h.ordered, h.refused, fun hOpen => ?_⟩
  obtain ⟨lost, hLost, hEvents⟩ := h.complete hOpen
  refine ⟨⟨_, hEvents⟩, fun hPump => ?_⟩
  rw [eventsOf_append, ← hEvents, hLost hPump, nil_append]

section

variable [DecidableEq ι] {id : ι} {body : β}

theorem hasSent_iff : c.hasSent id ↔ id ∈ c.history.map (·.id) := by
  simp [ConnectionRuntime.hasSent]

theorem ConnSound.enqueueEvent {base : Nat}
    (h : ConnSound c issued base) (hNew : c.hasSent id = false) :
    ConnSound (c.enqueueEvent id body) (issued ++ [c.candidate id body]) base := by
  rw [ConnectionRuntime.enqueueEvent, if_neg (by simp [hNew])]
  have hUnsent : (c.candidate id body).id ∉ c.history.map (·.id) := by
    rw [← hasSent_iff]
    simpa [ConnectionRuntime.candidate] using hNew
  exact h.enqueue rfl (h.kept.append rfl hUnsent) rfl rfl rfl rfl rfl

end

/-! ## The invariant of the hub -/

variable {h h' : Hub κ τ ι β} {r : Registration κ τ} {state : ReplayState τ ι β} {id : κ}
  {replay : κ → Option (ReplayState τ ι β)}

structure HubSound (h : Hub κ τ ι β) : Prop where
  conn : ∀ id c, h.conns id = some c → ConnSound c (h.issued id) (h.resumedAfter id)
  connected : ∀ id c, h.conns id = some c → id ∈ h.used ∧ h.replay id = none
  retained : ∀ id state, h.replay id = some state →
    Kept state.history state.nextSequence (h.issued id) ∧ id ∈ h.used
  fresh : ∀ id, id ∉ h.used → h.issued id = []

theorem hubSound_new : HubSound (newHub κ τ ι β) where
  conn id c hc := by cases hc
  connected id c hc := by cases hc
  retained id state hs := by cases hs
  fresh _ _ := rfl

def Resumable (h : Hub κ τ ι β) (r : Registration κ τ) : Prop :=
  ∃ state, h.replay r.requestedID = some state ∧ r.now < state.expiresAt ∧
    state.userID = r.userID ∧ state.sessionID = r.sessionID ∧
    (((h.issued r.requestedID).length - replayQueueSize : Nat) : Int) ≤ r.requestedSequence ∧
    r.requestedSequence ≤ (h.issued r.requestedID).length

theorem pruneReplay_eq_some {now : Int}
    : pruneReplay replay now id = some state ↔ replay id = some state ∧ now < state.expiresAt := by
  simp [pruneReplay, filter_eq_some_iff]

variable (replay) in
theorem pruneReplay_cases (now : Int) (id : κ) : pruneReplay replay now id = replay id ∨
    pruneReplay replay now id = none ∧ ∃ state, replay id = some state ∧ state.expiresAt ≤ now := by
  cases hState : replay id with
  | none => exact .inl (by simp [pruneReplay, hState])
  | some state =>
    rcases lt_or_ge now state.expiresAt with hLive | hExpired
    · exact .inl (by simp [pruneReplay, hState, hLive])
    · exact .inr ⟨by simp [pruneReplay, hState, hExpired], state, rfl, hExpired⟩

theorem HubSound.prune (hSound : HubSound h) (now : Int) :
    HubSound { h with replay := pruneReplay h.replay now } where
  conn := hSound.conn
  connected id c hc := ⟨(hSound.connected id c hc).1, by
    simp [pruneReplay, (hSound.connected id c hc).2]⟩
  retained id state hs := hSound.retained id state (pruneReplay_eq_some.mp hs).1
  fresh := hSound.fresh

section

variable [DecidableEq τ] {events : List (Event ι β)}

theorem takeReplayResume_eq_some {userID sessionID : τ} {sequence : Int} :
    takeReplayResume replay userID sessionID id sequence = some (state, events) ↔
      replay id = some state ∧ state.userID = userID ∧ state.sessionID = sessionID ∧
        sequence ≤ state.nextSequence ∧ sequence ≥ oldestSequence state.nextSequence state.history ∧
        events = state.history.filter fun e => e.sequence > sequence := by
  constructor
  · intro hTake
    obtain ⟨found, hFound, hTake⟩ := bind_eq_some_iff.mp hTake
    split at hTake
    · rename_i hGuard
      obtain ⟨hUser, hSess, hHigh, hLow⟩ := hGuard
      cases hTake
      exact ⟨hFound, hUser, hSess, hHigh, hLow, rfl⟩
    · cases hTake
  · rintro ⟨hFound, hUser, hSess, hHigh, hLow, rfl⟩
    rw [takeReplayResume, hFound]
    exact if_pos ⟨hUser, hSess, hHigh, hLow⟩

variable (hSound : HubSound h)
include hSound

theorem HubSound.resume
    (hTake : takeReplayResume (pruneReplay h.replay r.now) r.userID r.sessionID r.requestedID
      r.requestedSequence = some (state, events)) :
    Resumable h r ∧ h.replay r.requestedID = some state ∧
      events = (h.issued r.requestedID).drop r.requestedSequence.toNat ∧
      r.requestedSequence.toNat ≤ (h.issued r.requestedID).length ∧
      (h.issued r.requestedID).length - replayQueueSize ≤ r.requestedSequence.toNat := by
  obtain ⟨hFound, hUser, hSess, hHigh, hLow, rfl⟩ := takeReplayResume_eq_some.mp hTake
  obtain ⟨hRet, hLive⟩ := pruneReplay_eq_some.mp hFound
  obtain ⟨hKept, -⟩ := hSound.retained _ _ hRet
  rw [hKept.oldest] at hLow
  rw [hKept.next] at hHigh
  refine ⟨⟨state, hRet, hLive, hUser, hSess, hLow, hHigh⟩, hRet, ?_, by omega, by omega⟩
  have hSeq : r.requestedSequence = (r.requestedSequence.toNat : Int) := by omega
  rw [hSeq, hKept.recent]
  exact hKept.numbered.filter_drop (by omega)

theorem HubSound.resumable_take (hResumable : Resumable h r) : ∃ state events,
      takeReplayResume (pruneReplay h.replay r.now) r.userID r.sessionID r.requestedID
        r.requestedSequence = some (state, events) := by
  obtain ⟨state, hRet, hLive, hUser, hSess, hLow, hHigh⟩ := hResumable
  obtain ⟨hKept, -⟩ := hSound.retained _ _ hRet
  refine ⟨state, _, takeReplayResume_eq_some.mpr
    ⟨pruneReplay_eq_some.mpr ⟨hRet, hLive⟩, hUser, hSess, ?_, ?_, rfl⟩⟩
  · rw [hKept.next]
    exact hHigh
  · rw [hKept.oldest]
    exact hLow

end

/-! ## The steps -/

variable [DecidableEq κ]

section

variable (hSound : HubSound h)
include hSound

/-- A connection is put at an identity, whose retained state is gone. -/
theorem HubSound.connect {c : ConnectionRuntime τ ι β} {issued : κ → List (Event ι β)} {used : List κ}
    (hConn : ConnSound c (issued id) base) (hOther : ∀ other, other ≠ id → issued other = h.issued other)
    (hReplay : ∀ other state, replay other = some state → other ≠ id ∧ h.replay other = some state)
    (hId : id ∈ used) (hUsed : h.used ⊆ used) :
    HubSound { h with
      replay := replay, conns := update h.conns id (some c), issued := issued
      resumedAfter := update h.resumedAfter id base, used := used } := by
  refine ⟨fun other d hd => ?_, fun other d hd => ?_, fun other state hs => ?_, fun other hFresh => ?_⟩
  · by_cases hSame : other = id
    · subst hSame
      simp only [update_self] at hd ⊢
      exact some.inj hd ▸ hConn
    · simp only [update_of_ne hSame, hOther other hSame] at hd ⊢
      exact hSound.conn other d hd
  · by_cases hSame : other = id
    · exact ⟨hSame ▸ hId, eq_none_iff_forall_ne_some.mpr fun state hs => (hReplay _ state hs).1 hSame⟩
    · simp only [update_of_ne hSame] at hd
      obtain ⟨hIn, hNone⟩ := hSound.connected other d hd
      exact ⟨hUsed hIn, eq_none_iff_forall_ne_some.mpr fun state hs =>
        eq_none_iff_forall_ne_some.mp hNone state (hReplay _ state hs).2⟩
  · obtain ⟨hNe, hs⟩ := hReplay other state hs
    simp only [hOther other hNe]
    exact ⟨(hSound.retained other state hs).1, hUsed (hSound.retained other state hs).2⟩
  · have hNe : other ≠ id := fun hSame => hFresh (hSame ▸ hId)
    exact (hOther other hNe).trans (hSound.fresh other fun hIn => hFresh (hUsed hIn))

theorem HubSound.reconnect {c c' : ConnectionRuntime τ ι β} (hc : h.conns id = some c)
    {issued : κ → List (Event ι β)} (hConn : ConnSound c' (issued id) (h.resumedAfter id))
    (hOther : ∀ other, other ≠ id → issued other = h.issued other) :
    HubSound { h with conns := update h.conns id (some c'), issued := issued } := by
  obtain ⟨hUsed, hNone⟩ := hSound.connected id c hc
  have hNext := hSound.connect hConn hOther (fun other state hs => ⟨fun hSame => ?_, hs⟩) hUsed
    (List.Subset.refl _)
  · rwa [update_eq_self] at hNext
  · rw [hSame, hNone] at hs
    cases hs

theorem onConnection_sound {f : ConnectionRuntime τ ι β → Option (ConnectionRuntime τ ι β)}
    (hf : ∀ c c' issued base, ConnSound c issued base → f c = some c' → ConnSound c' issued base)
    (hStep : h.onConnection id f = some h') : HubSound h' ∧ h'.issued = h.issued := by
  obtain ⟨c, hc, hStep⟩ := bind_eq_some_iff.mp hStep
  obtain ⟨c', hc', hStep⟩ := bind_eq_some_iff.mp hStep
  cases hStep
  exact ⟨hSound.reconnect hc (hf c c' _ _ (hSound.conn id c hc) hc') fun _ _ => rfl, rfl⟩

theorem unregister_sound {now : Int}
    (hStep : h.unregister id now = some h') : HubSound h' := by
  obtain ⟨c, hc, hStep⟩ := bind_eq_some_iff.mp hStep
  cases hStep
  obtain ⟨hUsed, -⟩ := hSound.connected id c hc
  have hConns : ∀ other d, update h.conns id none other = some d →
      other ≠ id ∧ h.conns other = some d := by
    intro other d hd
    by_cases hId : other = id
    · simp only [hId, update_self] at hd
      cases hd
    · simp only [update_of_ne hId] at hd
      exact ⟨hId, hd⟩
  refine ⟨fun other d hd => hSound.conn other d (hConns other d hd).2, fun other d hd => ?_,
    fun other state hs => ?_, hSound.fresh⟩
  · obtain ⟨hId, hd⟩ := hConns other d hd
    refine ⟨(hSound.connected other d hd).1, ?_⟩
    split
    · simp only [update_of_ne hId]
      exact (hSound.connected other d hd).2
    · exact (hSound.connected other d hd).2
  · split at hs
    · by_cases hId : other = id
      · subst hId
        simp only [update_self] at hs
        exact some.inj hs ▸ ⟨(hSound.conn other c hc).kept, hUsed⟩
      · simp only [update_of_ne hId] at hs
        exact hSound.retained other state hs
    · exact hSound.retained other state hs

theorem unregister_replay {now : Int} (hStep : h.unregister id now = some h') :
    ∃ c, h.conns id = some c ∧ h'.conns id = none ∧
      h'.replay = update h.replay id (if c.replayable && h.started then
        some ⟨c.userID, c.sessionID, c.nextSequence, c.history, now + replayRetention⟩ else none) := by
  obtain ⟨c, hc, hStep⟩ := bind_eq_some_iff.mp hStep
  cases hStep
  refine ⟨c, hc, update_self _ _ _, ?_⟩
  split
  · rfl
  · rw [← (hSound.connected id c hc).2, update_eq_self]

end

section

variable [DecidableEq ι] {eventID : ι} {body : β}

theorem enqueueEvent_inv
    (hStep : h.enqueueEvent id eventID body = some h') : ∃ c, h.conns id = some c ∧
      ((eventID ∈ c.history.map (·.id) ∧ h' = h) ∨
        (c.hasSent eventID = false ∧ h' = { h with
          conns := update h.conns id (some (c.enqueueEvent eventID body))
          issued := update h.issued id
            (h.issued id ++ [c.candidate eventID body]) })) := by
  obtain ⟨c, hc, hStep⟩ := bind_eq_some_iff.mp hStep
  refine ⟨c, hc, ?_⟩
  cases hSent : c.hasSent eventID with
  | true =>
    refine .inl ⟨hasSent_iff.mp hSent, ?_⟩
    have hSame : c.enqueueEvent eventID body = c := by
      rw [ConnectionRuntime.enqueueEvent, if_pos hSent]
    have hConns : update h.conns id (some c) = h.conns := by
      rw [← hc, update_eq_self]
    rw [hSame, hConns, if_pos hSent] at hStep
    exact (some.inj hStep).symm
  | false =>
    rw [if_neg (by simp [hSent])] at hStep
    exact .inr ⟨rfl, (some.inj hStep).symm⟩

theorem enqueueEvent_sound
    (hSound : HubSound h) (hStep : h.enqueueEvent id eventID body = some h') : HubSound h' := by
  obtain ⟨c, hc, ⟨-, rfl⟩ | ⟨hNew, rfl⟩⟩ := enqueueEvent_inv hStep
  · exact hSound
  refine hSound.reconnect hc ?_ fun other hOther => update_of_ne hOther _ _
  rw [update_self]
  exact (hSound.conn id c hc).enqueueEvent hNew

end

variable [DecidableEq τ]

section

variable (hSound : HubSound h)
include hSound

/-- A registration either resumes the requested identity, with the events after the presented
sequence queued, or starts a fresh one with nothing queued. -/
theorem HubSound.register_cases (hStep : h.register r = some h') :
    r.freshID ∉ h.used ∧ ((Resumable h r ∧ ∃ state, h.replay r.requestedID = some state ∧
        (h.issued r.requestedID).length - replayQueueSize ≤ r.requestedSequence.toNat ∧
        r.requestedSequence.toNat ≤ (h.issued r.requestedID).length ∧
        h' = { h with
          replay := update (pruneReplay h.replay r.now) r.requestedID none
          conns := update h.conns r.requestedID
            (some (newConnectionRuntime r.userID r.sessionID state.nextSequence state.history
              ((h.issued r.requestedID).drop r.requestedSequence.toNat)))
          resumedAfter :=
            update h.resumedAfter r.requestedID r.requestedSequence.toNat }) ∨
      (¬Resumable h r ∧ h' = { h with
        replay := pruneReplay h.replay r.now
        conns := update h.conns r.freshID
          (some (newConnectionRuntime r.userID r.sessionID 0 [] []))
        resumedAfter := update h.resumedAfter r.freshID 0
        used := r.freshID :: h.used })) := by
  unfold Hub.register at hStep
  split at hStep
  · rename_i hGuard
    refine ⟨hGuard.2, ?_⟩
    simp only at hStep
    split at hStep
    · rename_i state events hTake
      obtain ⟨hResumable, hRet, rfl, hHigh, hLow⟩ := hSound.resume hTake
      exact .inl ⟨hResumable, state, hRet, hLow, hHigh, (some.inj hStep).symm⟩
    rename_i hTake
    refine .inr ⟨fun hResumable => ?_, (some.inj hStep).symm⟩
    obtain ⟨state, events, hSome⟩ := hSound.resumable_take hResumable
    rw [hTake] at hSome
    cases hSome
  · cases hStep

theorem register_sound (hStep : h.register r = some h') : HubSound h' := by
  obtain ⟨hFresh, ⟨-, state, hRet, hLow, hHigh, rfl⟩ | ⟨-, rfl⟩⟩ := hSound.register_cases hStep
  · obtain ⟨hKept, hUsed⟩ := hSound.retained _ _ hRet
    refine (hSound.prune r.now).connect (.of_new hKept hHigh hLow _ _) (fun _ _ => rfl)
      (fun other found hs => ?_) hUsed (List.Subset.refl _)
    by_cases hId : other = r.requestedID
    · subst hId
      rw [update_self] at hs
      cases hs
    · rw [update_of_ne hId] at hs
      exact ⟨hId, hs⟩
  · have hKept : Kept ([] : List (Event ι β)) 0 (h.issued r.freshID) := by
      rw [hSound.fresh r.freshID hFresh]
      exact ⟨Recent.numbered_nil, rfl, (rtake_nil _).symm, nodup_nil⟩
    refine (hSound.prune r.now).connect ?_ (fun _ _ => rfl) (fun other found hs => ⟨?_, hs⟩) mem_cons_self
      (subset_cons_self _ _)
    · have hNew := ConnSound.of_new hKept (Nat.zero_le _) ?_ r.userID r.sessionID
      · rwa [hSound.fresh r.freshID hFresh] at hNew ⊢
      · rw [hSound.fresh r.freshID hFresh]
        exact (Nat.zero_sub replayQueueSize).le
    · rintro rfl
      exact hFresh ((hSound.prune r.now).retained _ found hs).2

end

variable [DecidableEq ι]

theorem step_sound {action : HubAction κ τ ι β} (hSound : HubSound h)
    (hStep : h.step action = some h') : HubSound h' ∧ ∀ id, h.issued id <+: h'.issued id := by
  have hSame : ∀ {g : Hub κ τ ι β}, HubSound g ∧ g.issued = h.issued →
      HubSound g ∧ ∀ id, h.issued id <+: g.issued id :=
    fun ⟨hg, hIssued⟩ => ⟨hg, fun id => hIssued ▸ prefix_refl _⟩
  cases action with
  | register r =>
    refine hSame ⟨register_sound hSound hStep, ?_⟩
    obtain ⟨-, ⟨-, state, -, -, -, rfl⟩ | ⟨-, rfl⟩⟩ := hSound.register_cases hStep <;> rfl
  | enqueueEvent id eventID body =>
    refine ⟨enqueueEvent_sound hSound hStep, fun other => ?_⟩
    obtain ⟨c, -, ⟨-, rfl⟩ | ⟨-, rfl⟩⟩ := enqueueEvent_inv hStep
    · exact prefix_refl _
    by_cases hId : other = id
    · subst hId
      simp only [update_self]
      exact prefix_append _ _
    · simp only [update_of_ne hId]
      exact prefix_refl _
  | enqueueResponse id =>
    exact hSame (onConnection_sound hSound
      (fun c c' issued base hc hf => some.inj hf ▸ hc.enqueueResponse) hStep)
  | write id succeeds =>
    exact hSame (onConnection_sound hSound (fun c c' issued base hc hf => hc.write hf) hStep)
  | closeForGood id =>
    exact hSame (onConnection_sound hSound
      (fun c c' issued base hc hf => some.inj hf ▸ hc.closeForGood) hStep)
  | unregister id now =>
    refine hSame ⟨unregister_sound hSound hStep, ?_⟩
    obtain ⟨c, -, hStep⟩ := bind_eq_some_iff.mp hStep
    cases hStep
    rfl
  | reap now => exact some.inj hStep ▸ hSame ⟨hSound.prune now, rfl⟩
  | stop =>
    exact some.inj hStep ▸ hSame ⟨⟨hSound.conn, hSound.connected, hSound.retained,
      hSound.fresh⟩, rfl⟩

/-! ## Retained states -/

/-- The action may take the retained state of the identity out of the catalogue: the state has
expired, or the identity is resumed. -/
def Releases (h : Hub κ τ ι β) (id : κ) : HubAction κ τ ι β → Prop
  | .register r => (r.requestedID = id ∧ Resumable h r) ∨ ∃ state, h.replay id = some state ∧ state.expiresAt ≤ r.now
  | .reap now => ∃ state, h.replay id = some state ∧ state.expiresAt ≤ now
  | _ => False

theorem step_replay {action : HubAction κ τ ι β} (hSound : HubSound h)
    (hStep : h.step action = some h') (id : κ) : (∃ now, action = .unregister id now) ∨
      h'.replay id = h.replay id ∨ h'.replay id = none ∧ Releases h id action := by
  have hConnection : ∀ {other : κ} {f}, h.onConnection other f = some h' → h'.replay id = h.replay id := by
    intro other f hStep
    obtain ⟨c, -, hStep⟩ := bind_eq_some_iff.mp hStep
    obtain ⟨c', -, hStep⟩ := bind_eq_some_iff.mp hStep
    cases hStep
    rfl
  cases action with
  | register r =>
    have hPruned := pruneReplay_cases h.replay r.now id
    obtain ⟨-, ⟨hResumable, state, -, -, -, rfl⟩ | ⟨-, rfl⟩⟩ := hSound.register_cases hStep
    · by_cases hId : id = r.requestedID
      · exact .inr (.inr ⟨by simp [hId], .inl ⟨hId.symm, hResumable⟩⟩)
      · simp only [update_of_ne hId]
        exact .inr (hPruned.imp_right fun hDropped => ⟨hDropped.1, .inr hDropped.2⟩)
    · exact .inr (hPruned.imp_right fun hDropped => ⟨hDropped.1, .inr hDropped.2⟩)
  | enqueueEvent other eventID body =>
    obtain ⟨c, -, ⟨-, rfl⟩ | ⟨-, rfl⟩⟩ := enqueueEvent_inv hStep <;> exact .inr (.inl rfl)
  | enqueueResponse other => exact .inr (.inl (hConnection hStep))
  | write other succeeds => exact .inr (.inl (hConnection hStep))
  | closeForGood other => exact .inr (.inl (hConnection hStep))
  | unregister other now =>
    by_cases hId : id = other
    · exact .inl ⟨now, by rw [hId]⟩
    · obtain ⟨c, -, -, hReplay⟩ := unregister_replay hSound hStep
      exact .inr (.inl (by rw [hReplay, update_of_ne hId]))
  | reap now => exact some.inj hStep ▸ .inr (pruneReplay_cases h.replay now id)
  | stop => exact some.inj hStep ▸ .inr (.inl rfl)

theorem reaches_sound (hReach : Reaches Hub.step (newHub κ τ ι β) h) : HubSound h :=
  hReach.invariant (fun _ _ _ hSound hStep => (step_sound hSound hStep).1) hubSound_new

/-! ## Whole runs -/

def stillConnected : List (HubAction Nat Nat Nat Unit) :=
  [.register ⟨1, 2, 0, 0, 0, 10⟩, .enqueueEvent 10 100 (), .enqueueEvent 10 101 ()]

end Proctor.WebSocket
