import Proctor.Cluster.ReliableDelivery

/-! # What holds along every run of reliable delivery

The invariant says of each peer object what its worker may rely on, and of the whole that every
envelope is at one place only: its `done` has been called or is owed, its send is in flight, or it
waits in a queue. -/
namespace Proctor.Cluster

open Transition List ReliableDelivery ReliablePeer
open Prod (fst)
open Option (bind_eq_some_iff some)

variable {ν ε : Type}

/-! ## Making room -/

def bytesOf (queue : List (ReliableEnvelope ν)) : Int := (queue.map fun e => (e.size : Int)).sum

@[simp] theorem bytesOf_nil : bytesOf ([] : List (ReliableEnvelope ν)) = 0 := rfl

@[simp] theorem bytesOf_cons (e : ReliableEnvelope ν) (rest : List (ReliableEnvelope ν)) :
    bytesOf (e :: rest) = e.size + bytesOf rest := by simp [bytesOf]

@[simp] theorem bytesOf_append (a b : List (ReliableEnvelope ν)) :
    bytesOf (a ++ b) = bytesOf a + bytesOf b := by simp [bytesOf]

/-- A queue that cannot take an envelope of the given size as it is. -/
def Full (size : Nat) (queue : List (ReliableEnvelope ν)) : Prop :=
  queue ≠ [] ∧ (queue.length ≥ reliablePeerQueueEnvelopes ∨
    bytesOf queue + size > reliablePeerQueueBytes)

/-- The envelopes dropped are the oldest ones, each dropped from a full queue, and what stays is
not full. -/
theorem makeRoom_spec (size : Nat) (queue : List (ReliableEnvelope ν)) :
    ∃ k, makeRoom size queue (bytesOf queue) = (queue.take k, queue.drop k, bytesOf (queue.drop k)) ∧
      ¬Full size (queue.drop k) ∧ ∀ j < k, Full size (queue.drop j) := by
  induction queue with
  | nil => exact ⟨0, rfl, fun h => h.1 rfl, by simp⟩
  | cons e rest ih =>
    by_cases hFull : (e :: rest).length ≥ reliablePeerQueueEnvelopes ∨
        bytesOf (e :: rest) + size > reliablePeerQueueBytes
    · obtain ⟨k, hRoom, hEnd, hFirst⟩ := ih
      refine ⟨k + 1, ?_, hEnd, fun j hj => ?_⟩
      · have hLeft : bytesOf (e :: rest) - e.size = bytesOf rest := by
          rw [bytesOf_cons]
          omega
        rw [makeRoom, if_pos hFull, hLeft, hRoom]
        rfl
      · cases j with
        | zero => exact ⟨cons_ne_nil e rest, hFull⟩
        | succ j => exact hFirst j (by omega)
    · exact ⟨0, by rw [makeRoom, if_neg hFull]; rfl, fun h => hFull h.2, by simp⟩

/-! ## The invariant -/

def ReliablePeer.held (p : ReliablePeer ν) : List (ReliableEnvelope ν) :=
  p.worker.inFlight ++ p.queue

structure PeerSound (stopped : Bool) (signals : List Nat) (i : Nat) (p : ReliablePeer ν) :
    Prop where
  bytes : p.bytes = bytesOf p.queue
  length_le : p.queue.length ≤ reliablePeerQueueEnvelopes
  bytes_le : p.queue.length ≤ 1 ∨ bytesOf p.queue ≤ reliablePeerQueueBytes
  nodes : ∀ e ∈ p.held, e.node = p.name
  ordered : p.queue.Pairwise fun a b => a.number < b.number
  alive : p.worker ≠ .exited → p.registered = true
  served : p.registered = true → p.worker ≠ .exited ∨ stopped = true
  finished : p.worker = .exited → p.queue = []
  signalled : p.worker = .waiting → p.queue ≠ [] → p.wake = true ∨ i ∈ signals
  closed : stopped = true → p.queue = []

variable {i : Nat} {p : ReliablePeer ν} {d : ReliableDelivery ν ε}

theorem PeerSound.queue_of_unregistered {stopped : Bool} {signals : List Nat}
    (h : PeerSound stopped signals i p) (hOut : p.registered = false) :
    p.worker = .exited ∧ p.queue = [] := by
  have hExited : p.worker = .exited := by
    by_contra hAlive
    rw [h.alive hAlive] at hOut
    cases hOut
  exact ⟨hExited, h.finished hExited⟩

/-- The envelopes by where they are: `done` called, `done` owed, or held by a peer object. -/
def ReliableDelivery.places (d : ReliableDelivery ν ε) : List Nat :=
  d.called.map fst ++ (d.owed.map fst ++ (d.objects.flatMap ReliablePeer.held).map (·.number))

structure Sound (d : ReliableDelivery ν ε) : Prop where
  peer : ∀ i p, d.objects[i]? = some p → PeerSound d.stopped d.signals i p
  unique : ∀ (i j : Nat) (p q : ReliablePeer ν), d.objects[i]? = some p → d.objects[j]? = some q →
    p.registered = true → q.registered = true → p.name = q.name → i = j
  placed : d.places.Perm (List.range d.enqueued)
  startedKnown : ∀ e ∈ d.started, e.number < d.enqueued
  startedFirst : ∀ e ∈ d.started, ∀ p ∈ d.objects, p.name = e.node → ∀ w ∈ p.queue,
    e.number < w.number
  startedInOrder : d.started.Pairwise fun a b => a.node = b.node → a.number < b.number

theorem sound_new : Sound (newReliableDelivery ν ε) where
  peer := by simp [newReliableDelivery]
  unique := by simp [newReliableDelivery]
  placed := List.Perm.refl _
  startedKnown := by simp [newReliableDelivery]
  startedFirst := by simp [newReliableDelivery]
  startedInOrder := List.Pairwise.nil

theorem Sound.of_mem (h : Sound d) (hp : p ∈ d.objects) : ∃ i, PeerSound d.stopped d.signals i p := by
  obtain ⟨i, hi⟩ := mem_iff_getElem?.mp hp
  exact ⟨i, h.peer i p hi⟩

theorem Sound.held_lt (h : Sound d)
    (hp : p ∈ d.objects) {e : ReliableEnvelope ν} (he : e ∈ p.held) : e.number < d.enqueued := by
  refine mem_range.mp (h.placed.subset ?_)
  refine mem_append_right _ (mem_append_right _ ?_)
  exact mem_map.mpr ⟨e, mem_flatMap.mpr ⟨p, hp, he⟩, rfl⟩

section Lookup

variable [DecidableEq ν]

theorem ReliableDelivery.lookup_eq_some {name : ν} {i : Nat} (h : d.lookup name = some i) :
    ∃ p, d.objects[i]? = some p ∧ p.registered ∧ p.name = name := by
  obtain ⟨hi, hFound, -⟩ := findIdx?_eq_some_iff_getElem.mp h
  simp only [Bool.and_eq_true, decide_eq_true_eq] at hFound
  exact ⟨d.objects[i], getElem?_eq_getElem hi, hFound⟩

theorem ReliableDelivery.lookup_eq_none {name : ν}
    (h : d.lookup name = none) : ∀ p ∈ d.objects, p.registered → p.name ≠ name := by
  intro p hp hIn hName
  have hNot := findIdx?_eq_none_iff.mp h p hp
  simp [hIn, hName] at hNot

theorem Sound.lookup_eq (h : Sound d) {i : Nat} {p : ReliablePeer ν}
    (hp : d.objects[i]? = some p) (hIn : p.registered) : d.lookup p.name = some i := by
  cases hFound : d.lookup p.name with
  | none =>
    exact absurd rfl (lookup_eq_none hFound p (mem_of_getElem? hp) hIn)
  | some j =>
    obtain ⟨q, hq, hqIn, hName⟩ := lookup_eq_some hFound
    rw [h.unique i j p q hp hq hIn hqIn hName.symm]

end Lookup

/-! ## One object changes -/

/-- How one peer object may change in a step, as far as the other objects are concerned. -/
structure Changes (d : ReliableDelivery ν ε) (i : Nat) (p p' : ReliablePeer ν)
    (d' : ReliableDelivery ν ε) : Prop where
  found : d.objects[i]? = some p
  objects : d'.objects = d.objects.set i p'
  stopped : d'.stopped = d.stopped
  signals : ∀ j, j ≠ i → j ∈ d.signals → j ∈ d'.signals
  name : p'.name = p.name
  registered : p'.registered = true → p.registered = true

variable {objects : List (ReliablePeer ν)} {d' : ReliableDelivery ν ε}

theorem split_at (h : objects[i]? = some p) : ∃ before after, objects = before ++ p :: after ∧
    objects.eraseIdx i = before ++ after ∧ ∀ p', objects.set i p' = before ++ p' :: after := by
  obtain ⟨hi, rfl⟩ := List.getElem?_eq_some_iff.mp h
  refine ⟨objects.take i, objects.drop (i + 1), by simp, eraseIdx_eq_take_drop_succ .., fun p' => ?_⟩
  rw [set_eq_take_append_cons_drop, if_pos hi]

theorem held_set (h : objects[i]? = some p) (p' : ReliablePeer ν) :
    ∃ rest, (objects.flatMap held).Perm (p.held ++ rest) ∧
      ((objects.set i p').flatMap held).Perm (p'.held ++ rest) := by
  obtain ⟨before, after, hSplit, -, hSet⟩ := split_at h
  refine ⟨before.flatMap held ++ after.flatMap held, ?_, ?_⟩
  · rw [hSplit, flatMap_append]
    exact perm_append_comm_assoc _ _ _
  · rw [hSet, flatMap_append]
    exact perm_append_comm_assoc _ _ _

theorem mem_objects_set {p' q : ReliablePeer ν} (h : q ∈ objects.set i p') : q = p' ∨ q ∈ objects :=
  (mem_or_eq_of_mem_set h).symm

variable {p' : ReliablePeer ν}

theorem Changes.origin
    (h : Changes d i p p' d') {j : Nat} {q : ReliablePeer ν} (hq : d'.objects[j]? = some q) :
    (j = i ∧ q = p') ∨ (j ≠ i ∧ d.objects[j]? = some q) := by
  rw [h.objects, getElem?_set] at hq
  by_cases hij : i = j
  · subst hij
    rw [if_pos rfl] at hq
    split at hq
    · exact .inl ⟨rfl, (some.inj hq).symm⟩
    · cases hq
  · rw [if_neg hij] at hq
    exact .inr ⟨fun hji => hij hji.symm, hq⟩

section

variable (hChg : Changes d i p p' d')
include hChg

theorem Changes.sound (h : Sound d)
    (hPeer : PeerSound d'.stopped d'.signals i p') (hPlaced : d'.places.Perm (List.range d'.enqueued))
    (hKnown : ∀ e ∈ d'.started, e.number < d'.enqueued)
    (hFirst : ∀ e ∈ d'.started, ∀ q ∈ d'.objects, q.name = e.node → ∀ w ∈ q.queue, e.number < w.number)
    (hInOrder : d'.started.Pairwise fun a b => a.node = b.node → a.number < b.number) : Sound d' where
  peer j q hq := by
    rcases hChg.origin hq with ⟨rfl, rfl⟩ | ⟨hOther, hOld⟩
    · exact hPeer
    have hSound := h.peer j q hOld
    rw [← hChg.stopped] at hSound
    exact { hSound with
      signalled := fun hWait hQueue =>
        (hSound.signalled hWait hQueue).imp_right (hChg.signals j hOther) }
  unique j k q r hq hr hqIn hrIn hName := by
    rcases hChg.origin hq with ⟨rfl, rfl⟩ | ⟨-, hqOld⟩ <;>
      rcases hChg.origin hr with ⟨rfl, rfl⟩ | ⟨-, hrOld⟩
    · rfl
    · exact h.unique _ _ _ _ hChg.found hrOld (hChg.registered hqIn) hrIn
        (hChg.name ▸ hName)
    · exact h.unique _ _ _ _ hqOld hChg.found hqIn (hChg.registered hrIn)
        (hChg.name ▸ hName)
    · exact h.unique _ _ _ _ hqOld hrOld hqIn hrIn hName
  placed := hPlaced
  startedKnown := hKnown
  startedFirst := hFirst
  startedInOrder := hInOrder

theorem Changes.startedFirst (h : Sound d) (hStarted : d'.started = d.started)
    (hQueue : p'.queue ⊆ p.queue) : ∀ e ∈ d'.started, ∀ q ∈ d'.objects, q.name = e.node →
      ∀ w ∈ q.queue, e.number < w.number := by
  intro e he q hq hName w hw
  rw [hStarted] at he
  rw [hChg.objects] at hq
  rcases mem_objects_set hq with rfl | hOld
  · exact h.startedFirst e he p (mem_of_getElem? hChg.found) (hChg.name ▸ hName) w
      (hQueue hw)
  · exact h.startedFirst e he q hOld hName w hw

theorem Changes.places (hCalled : d'.called = d.called) (hOwed : d'.owed = d.owed)
    (hHeld : p'.held = p.held) : d'.places.Perm d.places := by
  obtain ⟨rest, hOld, hNew⟩ := held_set hChg.found p'
  rw [ReliableDelivery.places, hCalled, hOwed, hChg.objects]
  refine List.Perm.append_left _ (List.Perm.append_left _ (List.Perm.map _ ?_))
  rw [hHeld] at hNew
  exact hNew.trans hOld.symm

end

theorem Sound.still (h : Sound d)
    {signals : List Nat} (hp : d.objects[i]? = some p) (hName : p'.name = p.name)
    (hQueue : p'.queue = p.queue) (hBytes : p'.bytes = p.bytes)
    (hFlight : p'.worker.inFlight = p.worker.inFlight)
    (hSignals : ∀ j, j ≠ i → j ∈ d.signals → j ∈ signals)
    (hReg : p'.registered = true → p.registered)
    (hAlive : p'.worker ≠ .exited → p'.registered)
    (hServed : p'.registered = true → p'.worker ≠ .exited ∨ d.stopped)
    (hFinished : p'.worker = .exited → p.queue = [])
    (hSignalled : p'.worker = .waiting → p.queue ≠ [] → p'.wake = true ∨ i ∈ signals) :
    Sound { d with objects := d.objects.set i p', signals := signals } := by
  have hPeer := h.peer i p hp
  have hHeld : p'.held = p.held := by rw [held, held, hFlight, hQueue]
  have hChg : Changes d i p p' { d with objects := d.objects.set i p', signals := signals } :=
    ⟨hp, rfl, rfl, hSignals, hName, hReg⟩
  refine hChg.sound h ?_ ((hChg.places rfl rfl hHeld).trans h.placed) h.startedKnown
    (hChg.startedFirst h rfl (hQueue ▸ List.Subset.refl _)) h.startedInOrder
  exact
    { bytes := by rw [hBytes, hQueue, hPeer.bytes]
      length_le := hQueue ▸ hPeer.length_le
      bytes_le := hQueue ▸ hPeer.bytes_le
      nodes := by rw [hHeld, hName]; exact hPeer.nodes
      ordered := hQueue ▸ hPeer.ordered
      alive := hAlive
      served := hServed
      finished := hQueue ▸ hFinished
      signalled := hQueue ▸ hSignalled
      closed := hQueue ▸ hPeer.closed }

/-- A live worker that has nothing in flight goes on elsewhere. -/
theorem Sound.goes_on (h : Sound d) (hp : d.objects[i]? = some p) (hLive : p.worker ≠ .exited)
    (hIdle : p.worker.inFlight = []) (wake : Bool) {worker : Worker ν}
    (hWorker : worker = .checking ∨ worker = .expired) :
    Sound { d with objects := d.objects.set i { p with wake, worker } } := by
  have hNext : worker.inFlight = [] ∧ worker ≠ .exited ∧ worker ≠ .waiting := by
    rcases hWorker with rfl | rfl <;> exact ⟨rfl, nofun, nofun⟩
  exact h.still hp rfl rfl rfl (hNext.1.trans hIdle.symm) (fun _ _ hj => hj) id
    (fun _ => (h.peer i p hp).alive hLive) (fun _ => .inl hNext.2.1) (fun hOut => absurd hOut hNext.2.1)
    (fun hWait => absurd hWait hNext.2.2)

/-! ## The steps -/

section Steps

variable {result : Except ε Unit} {signals : List Nat} {size : Nat}

theorem found_guard {q : ReliablePeer ν → Prop} [DecidablePred q]
    {next : ReliablePeer ν → Option (ReliableDelivery ν ε)}
    (h : (do let p ← d.objects[i]?; guard (q p); next p) = some d') :
    ∃ p, d.objects[i]? = some p ∧ q p ∧ next p = some d' := by
  obtain ⟨p, hp, h⟩ := bind_eq_some_iff.mp h
  obtain ⟨_, hGuard, h⟩ := bind_eq_some_iff.mp h
  exact ⟨p, hp, by simpa [guard] using hGuard, h⟩

variable {k : Nat}

theorem signal_sound (h : Sound d) (hStep : d.signal k = some d') : Sound d' := by
  obtain ⟨i, hi, hStep⟩ := bind_eq_some_iff.mp hStep
  obtain ⟨p, hp, hStep⟩ := bind_eq_some_iff.mp hStep
  cases hStep
  have hPeer := h.peer i p hp
  refine h.still hp rfl rfl rfl rfl (fun j hj hMem => ?_) id hPeer.alive hPeer.served hPeer.finished
    (fun _ _ => .inl rfl)
  obtain ⟨n, hn⟩ := mem_iff_getElem?.mp hMem
  have hne : n ≠ k := by
    rintro rfl
    exact hj (some.inj (hn.symm.trans hi))
  exact mem_eraseIdx_iff_getElem?.mpr ⟨n, hne, hn⟩

theorem complete_sound (h : Sound d) (hStep : d.complete i result = some d') : Sound d' := by
  obtain ⟨p, hp, hStep⟩ := bind_eq_some_iff.mp hStep
  split at hStep
  case h_2 => cases hStep
  rename_i e hWorker
  cases hStep
  have hPeer := h.peer i p hp
  have hLive : p.registered := hPeer.alive (by simp [hWorker])
  have hChg : Changes d i p { p with worker := .checking }
      { d with
        objects := d.objects.set i { p with worker := .checking }
        called := d.called ++ [(e.number, .sent result)] } := ⟨hp, rfl, rfl, fun _ _ hj => hj, rfl, id⟩
  refine hChg.sound h ?_ ?_ h.startedKnown (hChg.startedFirst h rfl (List.Subset.refl _))
    h.startedInOrder
  · exact { hPeer with
      nodes := fun w hw => hPeer.nodes w (mem_append_right _ hw)
      alive := fun _ => hLive
      served := fun _ => .inl (by simp)
      finished := by simp
      signalled := by simp }
  · obtain ⟨rest, hOld, hNew⟩ := held_set hp { p with worker := .checking }
    have hHeld : p.held = e :: held { p with worker := .checking } := by
      simp [held, hWorker, Worker.inFlight]
    rw [hHeld] at hOld
    refine List.Perm.trans ?_ h.placed
    simp only [places, map_append, map_cons, map_nil,
      append_assoc]
    refine List.Perm.append_left _ ?_
    refine (List.Perm.cons _ ((hNew.map _).append_left _)).trans ?_
    refine perm_middle.symm.trans (List.Perm.append_left _ ?_)
    exact (hOld.map (·.number)).symm

theorem report_sound (h : Sound d) (hStep : d.report k = some d') : Sound d' := by
  obtain ⟨call, hCall, hStep⟩ := bind_eq_some_iff.mp hStep
  cases hStep
  refine { h with placed := ?_ }
  obtain ⟨hk, rfl⟩ := List.getElem?_eq_some_iff.mp hCall
  refine List.Perm.trans ?_ h.placed
  simp only [places, map_append, append_assoc]
  refine List.Perm.append_left _ ?_
  exact ((getElem_cons_eraseIdx_perm hk).map fst).append_right _

theorem abandon_held (p : ReliablePeer ν) : p.held.Perm (p.abandoned ++ p.abandon.held) := by
  unfold abandoned abandon
  split
  · rw [held, held, append_nil]
    exact perm_append_comm
  · exact List.Perm.refl _

@[simp] theorem abandon_name (p : ReliablePeer ν) : p.abandon.name = p.name := by
  unfold abandon
  split <;> rfl

@[simp] theorem abandon_registered (p : ReliablePeer ν) : p.abandon.registered = p.registered := by
  unfold abandon
  split <;> rfl

@[simp] theorem abandon_worker (p : ReliablePeer ν) : p.abandon.worker = p.worker := by
  unfold abandon
  split <;> rfl

theorem PeerSound.abandon {stopped : Bool}
    (h : PeerSound stopped signals i p) : PeerSound true signals i p.abandon ∧ p.abandon.queue = [] := by
  have hQueue : p.abandon.queue = [] := by
    unfold ReliablePeer.abandon
    split
    · rfl
    · rename_i hOut
      exact (h.queue_of_unregistered (by simpa using hOut)).2
  have hBytes : p.abandon.bytes = 0 := by
    unfold ReliablePeer.abandon
    split
    · rfl
    · rename_i hOut
      rw [h.bytes, (h.queue_of_unregistered (by simpa using hOut)).2, bytesOf_nil]
  refine ⟨?_, hQueue⟩
  exact
    { bytes := by rw [hBytes, hQueue, bytesOf_nil]
      length_le := by simp [hQueue]
      bytes_le := by simp [hQueue]
      nodes := fun e he => by
        rw [abandon_name]
        rw [held, hQueue, append_nil, abandon_worker] at he
        exact h.nodes e (mem_append_left _ he)
      ordered := by simp [hQueue]
      alive := by simpa using h.alive
      served := fun _ => .inr rfl
      finished := fun _ => hQueue
      signalled := fun _ hNonempty => absurd hQueue hNonempty
      closed := fun _ => hQueue }

theorem close_sound (h : Sound d) : Sound d.close := by
  unfold close
  split
  · exact h
  have hOrig : ∀ {i : Nat} {q : ReliablePeer ν},
      (d.objects.map abandon)[i]? = some q →
      ∃ p, d.objects[i]? = some p ∧ p.abandon = q := by
    intro i q hq
    rw [getElem?_map] at hq
    exact Option.map_eq_some_iff.mp hq
  refine ⟨fun i q hq => ?_, fun i j p q hp hq => ?_, ?_, h.startedKnown,
    fun e _ q hq _ w hw => ?_, h.startedInOrder⟩
  · obtain ⟨p, hp, rfl⟩ := hOrig hq
    exact (h.peer i p hp).abandon.1
  · obtain ⟨p, hpOld, rfl⟩ := hOrig hp
    obtain ⟨q, hqOld, rfl⟩ := hOrig hq
    simp only [abandon_registered, abandon_name]
    exact h.unique i j p q hpOld hqOld
  · refine List.Perm.trans ?_ h.placed
    simp only [places, map_append, append_assoc, map_map,
      flatMap_map]
    refine List.Perm.append_left _ (List.Perm.append_left _ ?_)
    rw [show (fst ∘ fun e : ReliableEnvelope ν => (e.number, (Outcome.stopped : Outcome ε))) =
      (·.number) from rfl, ← map_append]
    refine List.Perm.map _ ?_
    refine (flatMap_append_perm d.objects abandoned fun p => p.abandon.held).trans ?_
    exact List.Perm.flatMap_left _ fun p _ => (abandon_held p).symm
  · obtain ⟨i, hi⟩ := mem_iff_getElem?.mp hq
    obtain ⟨p, hp, rfl⟩ := hOrig hi
    rw [(h.peer i p hp).abandon.2] at hw
    cases hw

theorem range_succ_of_places {d : ReliableDelivery ν ε} (h : Sound d) {l : List Nat}
    (hl : l.Perm (d.enqueued :: d.places)) : l.Perm (List.range (d.enqueued + 1)) := by
  rw [range_succ]
  exact hl.trans ((h.placed.cons _).trans (perm_append_singleton _ _).symm)

variable {name : ν}

theorem PeerSound.push_eq {stopped : Bool}
    (h : PeerSound stopped signals i p) (e : ReliableEnvelope ν) :
    ∃ k, p.push e = { p with
        queue := p.queue.drop k ++ [e]
        bytes := bytesOf (p.queue.drop k ++ [e]) } ∧
      p.dropped e = p.queue.take k ∧ ¬Full e.size (p.queue.drop k) ∧
      ∀ j < k, Full e.size (p.queue.drop j) := by
  obtain ⟨k, hRoom, hEnd, hFirst⟩ := makeRoom_spec e.size p.queue
  rw [← h.bytes] at hRoom
  refine ⟨k, ?_, by rw [dropped, hRoom], hEnd, hFirst⟩
  simp [push, hRoom]

theorem not_full {queue : List (ReliableEnvelope ν)} (h : ¬Full size queue) :
    queue.length + 1 ≤ reliablePeerQueueEnvelopes ∧
      (queue.length + 1 ≤ 1 ∨ bytesOf queue + size ≤ reliablePeerQueueBytes) := by
  by_cases hNil : queue = []
  · subst hNil
    exact ⟨by simp [reliablePeerQueueEnvelopes], .inl (by simp)⟩
  have hRoom : ¬(queue.length ≥ reliablePeerQueueEnvelopes ∨
      bytesOf queue + size > reliablePeerQueueBytes) := fun hFull => h ⟨hNil, hFull⟩
  omega

theorem queueAt_sound (h : Sound d) (hOpen : d.stopped = false)
    (hp : d.objects[i]? = some p) (hIn : p.registered)
    (hStep : d.queueAt i p.name size = some d') : Sound d' := by
  rw [queueAt, hp] at hStep
  cases hStep
  have hPeer := h.peer i p hp
  obtain ⟨k, hPush, hDropped, hRoom, -⟩ := hPeer.push_eq ⟨d.enqueued, p.name, size⟩
  obtain ⟨hLen, hBytes⟩ := not_full hRoom
  have hLive : p.worker ≠ .exited := (hPeer.served hIn).resolve_right (by simp [hOpen])
  have hQueue : (p.push ⟨d.enqueued, p.name, size⟩).queue =
      p.queue.drop k ++ [⟨d.enqueued, p.name, size⟩] := by rw [hPush]
  have hKept : ∀ e ∈ p.queue.drop k, e.number < d.enqueued ∧ e.node = p.name := by
    intro e he
    have hHeld : e ∈ p.held := mem_append_right _ (mem_of_mem_drop he)
    exact ⟨h.held_lt (mem_of_getElem? hp) hHeld, hPeer.nodes e hHeld⟩
  rw [hDropped]
  have hChg : Changes d i p (p.push ⟨d.enqueued, p.name, size⟩)
      { d with
        objects := d.objects.set i (p.push ⟨d.enqueued, p.name, size⟩)
        owed := d.owed ++ (p.queue.take k).map fun e => (e.number, .queueFull)
        signals := d.signals ++ [i]
        enqueued := d.enqueued + 1 } :=
    ⟨hp, rfl, rfl, fun _ _ hj => mem_append_left _ hj, by rw [hPush], by rw [hPush]; exact id⟩
  refine hChg.sound h ?_ ?_ (fun e he => (h.startedKnown e he).trans (Nat.lt_succ_self _)) ?_
    h.startedInOrder
  · rw [hPush]
    exact
      { bytes := rfl
        length_le := by simpa using hLen
        bytes_le := by simpa using hBytes
        nodes := forall_mem_append.mpr ⟨fun e he => hPeer.nodes e (mem_append_left _ he),
          forall_mem_append.mpr ⟨fun e he => (hKept e he).2, forall_mem_singleton.mpr rfl⟩⟩
        ordered := by
          refine pairwise_append.mpr ⟨hPeer.ordered.sublist (drop_sublist _ _),
            pairwise_singleton _ _, fun a ha b hb => ?_⟩
          rw [mem_singleton.mp hb]
          exact (hKept a ha).1
        alive := fun _ => hIn
        served := fun _ => .inl hLive
        finished := fun hExited => absurd hExited hLive
        signalled := fun _ _ => .inr (by simp)
        closed := fun hStop => by simp [hOpen] at hStop }
  · obtain ⟨rest, hOld, hNew⟩ := held_set hp (p.push ⟨d.enqueued, p.name, size⟩)
    refine range_succ_of_places h (perm_iff_count.mpr fun n => ?_)
    have hOldCount := (hOld.map (·.number)).count_eq n
    have hNewCount := (hNew.map (·.number)).count_eq n
    have hSplit := congrArg (fun l => (l.map (·.number)).count n) (take_append_drop k p.queue)
    simp only [held, hPush, map_append, count_append, map_cons,
      map_nil, count_cons, count_nil] at hOldCount hNewCount hSplit
    simp only [places, map_append, map_map, count_append,
      count_cons, hPush]
    rw [show (fst ∘ fun e : ReliableEnvelope ν =>
      (e.number, (Outcome.queueFull : Outcome ε))) = (·.number) from rfl]
    omega
  · intro e he q hq hName w hw
    rcases mem_objects_set hq with rfl | hSame
    · rw [hQueue] at hw
      have hFirst := h.startedFirst e he p (mem_of_getElem? hp) hName
      exact forall_mem_append.mpr ⟨fun w hw => hFirst w (mem_of_mem_drop hw),
        forall_mem_singleton.mpr (h.startedKnown e he)⟩ w hw
    · exact h.startedFirst e he q hSame hName w hw

theorem register_objects (d : ReliableDelivery ν ε) (name : ν) :
    (d.register name).objects[d.objects.length]? = some (newReliablePeer name) := by
  simp [register]

variable {action : Action ν ε}

theorem Sound.called_nodup (h : Sound d) : (d.called.map fst).Nodup :=
  (nodup_append.mp (h.placed.nodup_iff.mpr nodup_range)).1

theorem Sound.called_lt (h : Sound d) : ∀ n ∈ d.called.map fst, n < d.enqueued :=
  fun _ hn => mem_range.mp (h.placed.subset (mem_append_left _ hn))

theorem Sound.held_of_quiescent (h : Sound d) (hQuiet : d.Quiescent) :
    d.objects.flatMap held = [] := by
  obtain ⟨-, hSignals, hWorkers⟩ := hQuiet
  refine flatMap_eq_nil_iff.mpr fun p hp => ?_
  obtain ⟨i, hPeer⟩ := h.of_mem hp
  rcases hWorkers p hp with hExited | ⟨hWaiting, hWake⟩
  · rw [held, hExited, hPeer.finished hExited]
    rfl
  have hEmpty : p.queue = [] := by
    by_contra hNonempty
    rcases hPeer.signalled hWaiting hNonempty with hSet | hOwed
    · rw [hWake] at hSet
      cases hSet
    · rw [hSignals] at hOwed
      cases hOwed
  rw [held, hWaiting, hEmpty]
  rfl

theorem Sound.called_once (h : Sound d) (hQuiet : d.Quiescent) {n : Nat} (hn : n < d.enqueued) :
    (d.called.map fst).count n = 1 := by
  have hPlaces : d.places = d.called.map fst := by
    rw [places, h.held_of_quiescent hQuiet, hQuiet.1]
    simp
  have hCount := h.placed.count_eq n
  rwa [hPlaces, count_range, if_pos hn] at hCount

variable [DecidableEq ν]

section

variable (h : Sound d)
include h

theorem check_sound (hStep : d.check i = some d') : Sound d' := by
  obtain ⟨p, hp, hWorker, hStep⟩ := found_guard hStep
  split at hStep
  · next hQueue =>
    cases hStep
    have hLive : p.registered = true := (h.peer i p hp).alive (by simp [hWorker])
    refine h.still hp rfl rfl rfl ?_ (fun _ _ hj => hj) id (fun _ => hLive) (fun _ => ?_)
      (fun _ => hQueue) (fun _ hNonempty => absurd hQueue hNonempty)
    · rw [hWorker]
      split <;> rfl
    by_cases hStop : d.stopped = true
    · exact .inr hStop
    · exact .inl (by simp [hStop])
  · next e rest hQueue =>
    cases hStep
    have hPeer := h.peer i p hp
    have hLive : p.registered := hPeer.alive (by simp [hWorker])
    have hOrd := hPeer.ordered
    rw [hQueue, pairwise_cons] at hOrd
    have hChg : Changes d i p
        { p with queue := rest, bytes := p.bytes - e.size, worker := .sending e }
        { d with
          objects := d.objects.set i
            { p with queue := rest, bytes := p.bytes - e.size, worker := .sending e }
          started := d.started ++ [e] } := ⟨hp, rfl, rfl, fun _ _ hj => hj, rfl, id⟩
    have hHead : e ∈ p.queue := by simp [hQueue]
    have hNode : e.node = p.name := hPeer.nodes e (mem_append_right _ hHead)
    have hHeld : held
        { p with queue := rest, bytes := p.bytes - e.size, worker := .sending e } = p.held := by
      simp [held, hWorker, hQueue, Worker.inFlight]
    have hLen := hPeer.length_le
    have hBytes := hPeer.bytes
    have hSize := hPeer.bytes_le
    simp only [hQueue, length_cons, bytesOf_cons] at hLen hBytes hSize
    refine hChg.sound h ?_ ((hChg.places rfl rfl hHeld).trans h.placed) ?_ ?_ ?_
    · exact
        { bytes := by simp only; omega
          length_le := by simp only; omega
          bytes_le := hSize.imp (fun hOne => by simp only; omega) (fun hFit => by simp only; omega)
          nodes := by rw [hHeld]; exact hPeer.nodes
          ordered := hOrd.2
          alive := fun _ => hLive
          served := fun _ => .inl (by simp)
          finished := by simp
          signalled := by simp
          closed := fun hStop => by
            have hNil := hPeer.closed hStop
            rw [hQueue] at hNil
            cases hNil }
    · exact forall_mem_append.mpr ⟨h.startedKnown,
        forall_mem_singleton.mpr (h.held_lt (mem_of_getElem? hp) (mem_append_right _ hHead))⟩
    · intro s hs q hq hName w hw
      rcases mem_append.mp hs with hOld | hNew
      · rcases mem_objects_set hq with rfl | hSame
        · exact h.startedFirst s hOld p (mem_of_getElem? hp) hName w (by simp [hQueue, hw])
        · exact h.startedFirst s hOld q hSame hName w hw
      rw [mem_singleton.mp hNew] at hName ⊢
      obtain ⟨j, hj⟩ := mem_iff_getElem?.mp hq
      rcases hChg.origin hj with ⟨-, rfl⟩ | ⟨hOther, hqOld⟩
      · exact hOrd.1 w hw
      -- a second object of that name with something waiting would be registered as well
      have hqIn : q.registered := by
        by_contra hOut
        have hEmpty := ((h.peer j q hqOld).queue_of_unregistered (by simpa using hOut)).2
        rw [hEmpty] at hw
        cases hw
      exact absurd (h.unique j i q p hqOld hp hqIn hLive (hName.trans hNode)) hOther
    · refine pairwise_append.mpr ⟨h.startedInOrder, pairwise_singleton _ _, ?_⟩
      intro s hs w hw hName
      rw [mem_singleton.mp hw] at hName ⊢
      exact h.startedFirst s hs p (mem_of_getElem? hp) (hNode ▸ hName.symm) e hHead

theorem wakeUp_sound (hStep : d.wakeUp i = some d') : Sound d' := by
  obtain ⟨p, hp, ⟨hWorker, -⟩, hStep⟩ := found_guard hStep
  cases hStep
  exact h.goes_on hp (by simp [hWorker]) (by rw [hWorker]; rfl) false (.inl rfl)

theorem idleTimeout_sound (hStep : d.idleTimeout i = some d') : Sound d' := by
  obtain ⟨p, hp, hWorker, hStep⟩ := found_guard hStep
  cases hStep
  exact h.goes_on hp (by simp [hWorker]) (by rw [hWorker]; rfl) p.wake (.inr rfl)

/-- An idle worker that leaves takes its object out of the map of peers: no later envelope can be
queued behind it. -/
theorem expire_sound (hStep : d.expire i = some d') : Sound d' := by
  obtain ⟨p, hp, hWorker, hStep⟩ := found_guard hStep
  split at hStep
  · next hQueue =>
    cases hStep
    rw [if_pos (h.lookup_eq hp ((h.peer i p hp).alive (by simp [hWorker])))]
    exact h.still hp rfl rfl rfl (by rw [hWorker]; rfl) (fun _ _ hj => hj) (by simp) (by simp)
      (by simp) (fun _ => hQueue) (by simp)
  · cases hStep
    exact h.goes_on hp (by simp [hWorker]) (by rw [hWorker]; rfl) p.wake (.inl rfl)

/-! ## Enqueueing -/

theorem register_sound (hNone : d.lookup name = none) : Sound (d.register name) := by
  have hOrig : ∀ {i : Nat} {q : ReliablePeer ν}, (d.objects ++ [newReliablePeer name])[i]? = some q →
      d.objects[i]? = some q ∨ (i = d.objects.length ∧ q = newReliablePeer name) := by
    intro i q hq
    rcases Nat.lt_or_ge i d.objects.length with hi | hi
    · rw [getElem?_append_left hi] at hq
      exact .inl hq
    rw [getElem?_append_right hi, getElem?_singleton] at hq
    split at hq
    · exact .inr ⟨by omega, (some.inj hq).symm⟩
    · cases hq
  have hFresh : ∀ {i : Nat} {q : ReliablePeer ν}, d.objects[i]? = some q → q.registered →
      q.name ≠ name := fun hq =>
    lookup_eq_none hNone _ (mem_of_getElem? hq)
  refine ⟨fun i q hq => ?_, fun i j p q hp hq hpIn hqIn hName => ?_, ?_, h.startedKnown,
    fun e he q hq hName w hw => ?_, h.startedInOrder⟩
  · rcases hOrig hq with hOld | ⟨rfl, rfl⟩
    · exact h.peer i q hOld
    exact ⟨rfl, by simp [newReliablePeer], by simp [newReliablePeer],
      by simp [newReliablePeer, held, Worker.inFlight], List.Pairwise.nil,
      fun _ => rfl, fun _ => .inl (by simp [newReliablePeer]), fun _ => rfl,
      by simp [newReliablePeer], fun _ => rfl⟩
  · rcases hOrig hp with hpOld | ⟨rfl, rfl⟩ <;> rcases hOrig hq with hqOld | ⟨rfl, rfl⟩
    · exact h.unique i j p q hpOld hqOld hpIn hqIn hName
    · exact absurd hName (hFresh hpOld hpIn)
    · exact absurd hName.symm (hFresh hqOld hqIn)
    · rfl
  · refine List.Perm.trans ?_ h.placed
    simp [places, register, newReliablePeer, held,
      Worker.inFlight]
  · rcases mem_append.mp hq with hOld | hNew
    · exact h.startedFirst e he q hOld hName w hw
    · rw [mem_singleton.mp hNew] at hw
      cases hw

end

theorem enqueue_inv (hStep : d.enqueue name size = some d') :
    (d.stopped ∧ d' = { d with
        owed := d.owed ++ [(d.enqueued, .stopped)], enqueued := d.enqueued + 1 }) ∨
      (d.stopped = false ∧ ∃ i, d.lookup name = some i ∧ d.queueAt i name size = some d') ∨
      (d.stopped = false ∧ d.lookup name = none ∧
        (d.register name).queueAt d.objects.length name size = some d') := by
  unfold enqueue at hStep
  split at hStep
  · rename_i hStop
    exact .inl ⟨hStop, (some.inj hStep).symm⟩
  rename_i hOpen
  have hOpen : d.stopped = false := by simpa using hOpen
  split at hStep
  · rename_i i hFound
    exact .inr (.inl ⟨hOpen, i, hFound, hStep⟩)
  · rename_i hNone
    exact .inr (.inr ⟨hOpen, hNone, hStep⟩)

theorem enqueue_sound (h : Sound d) (hStep : d.enqueue name size = some d') : Sound d' := by
  obtain ⟨hStop, rfl⟩ | ⟨hOpen, i, hFound, hQueue⟩ | ⟨hOpen, hNone, hQueue⟩ := enqueue_inv hStep
  · refine { h with
      placed := range_succ_of_places h (perm_iff_count.mpr fun n => ?_)
      startedKnown := fun e he => (h.startedKnown e he).trans (Nat.lt_succ_self _) }
    simp only [places, map_append, map_cons, map_nil,
      count_append, count_cons, count_nil]
    omega
  · obtain ⟨p, hp, hIn, rfl⟩ := lookup_eq_some hFound
    exact queueAt_sound h hOpen hp hIn hQueue
  · exact queueAt_sound (p := newReliablePeer name) (register_sound h hNone) hOpen
      (register_objects d name) rfl hQueue

theorem step_sound (h : Sound d) (hStep : d.step action = some d') : Sound d' := by
  cases action with
  | enqueue name size => exact enqueue_sound h hStep
  | check i => exact check_sound h hStep
  | wakeUp i => exact wakeUp_sound h hStep
  | idleTimeout i => exact idleTimeout_sound h hStep
  | expire i => exact expire_sound h hStep
  | complete i result => exact complete_sound h hStep
  | signal k => exact signal_sound h hStep
  | report k => exact report_sound h hStep
  | close => exact some.inj hStep ▸ close_sound h

theorem reaches_sound (h : Reaches step (newReliableDelivery ν ε) d) : Sound d :=
  h.invariant (fun _ _ _ hSound hStep => step_sound hSound hStep) sound_new

/-! ## What the invariant gives -/

section

variable (h : Sound d)
include h

theorem Sound.flatMap_named {β : Type} {f : ReliablePeer ν → List β}
    (hf : ∀ q, q.worker = .exited → q.queue = [] → f q = [])
    (hp : d.objects[i]? = some p) (hIn : p.registered) :
    (d.objects.filter fun q => q.name = p.name).flatMap f = f p := by
  obtain ⟨before, after, hSplit, hErase, -⟩ := split_at hp
  have hOther : ∀ q ∈ before ++ after, q.name = p.name → f q = [] := by
    intro q hq hName
    rw [← hErase] at hq
    obtain ⟨j, hji, hq⟩ := mem_eraseIdx_iff_getElem?.mp hq
    have hOut : q.registered = false := by
      by_contra hqIn
      exact hji (h.unique j i q p hq hp (by simpa using hqIn) hIn hName)
    obtain ⟨hExited, hEmpty⟩ := (h.peer j q hq).queue_of_unregistered hOut
    exact hf q hExited hEmpty
  have hNil : ∀ part, part ⊆ before ++ after → (part.filter fun q => q.name = p.name).flatMap f = [] := by
    refine fun part hPart => flatMap_eq_nil_iff.mpr fun q hq => ?_
    obtain ⟨hMem, hName⟩ := mem_filter.mp hq
    exact hOther q (hPart hMem) (by simpa using hName)
  rw [hSplit, filter_append, filter_cons_of_pos (by simp), flatMap_append, flatMap_cons,
    hNil before (subset_append_left ..), hNil after (subset_append_right ..), nil_append, append_nil]

theorem Sound.flatMap_unnamed {β : Type} {f : ReliablePeer ν → List β}
    (hf : ∀ q, q.worker = .exited → q.queue = [] → f q = [])
    (hNone : d.lookup name = none) : (d.objects.filter fun q => q.name = name).flatMap f = [] := by
  refine flatMap_eq_nil_iff.mpr fun q hq => ?_
  obtain ⟨hMem, hName⟩ := mem_filter.mp hq
  obtain ⟨j, hPeer⟩ := h.of_mem hMem
  have hOut : q.registered = false := by
    by_contra hqIn
    exact lookup_eq_none hNone q hMem (by simpa using hqIn) (by simpa using hName)
  obtain ⟨hExited, hEmpty⟩ := hPeer.queue_of_unregistered hOut
  exact hf q hExited hEmpty

theorem Sound.waiting_eq (hp : d.objects[i]? = some p)
    (hIn : p.registered) : d.waiting p.name = p.queue :=
  h.flatMap_named (fun _ _ hEmpty => hEmpty) hp hIn

theorem Sound.waiting_nil (hNone : d.lookup name = none) :
    d.waiting name = [] := h.flatMap_unnamed (fun _ _ hEmpty => hEmpty) hNone

theorem Sound.waiting_bounded (name : ν) :
    (d.waiting name).length ≤ reliablePeerQueueEnvelopes ∧
      ((d.waiting name).length ≤ 1 ∨ bytesOf (d.waiting name) ≤ reliablePeerQueueBytes) := by
  cases hFound : d.lookup name with
  | none => simp [h.waiting_nil hFound]
  | some i =>
    obtain ⟨p, hp, hIn, rfl⟩ := lookup_eq_some hFound
    rw [h.waiting_eq hp hIn]
    exact ⟨(h.peer i p hp).length_le, (h.peer i p hp).bytes_le⟩

theorem Sound.inFlight_one (name : ν) : (d.inFlight name).length ≤ 1 := by
  have hf : ∀ q : ReliablePeer ν, q.worker = .exited → q.queue = [] → q.worker.inFlight = [] :=
    fun q hExited _ => by rw [hExited]; rfl
  cases hFound : d.lookup name with
  | none =>
    rw [inFlight, h.flatMap_unnamed hf hFound]
    simp
  | some i =>
    obtain ⟨p, hp, hIn, rfl⟩ := lookup_eq_some hFound
    rw [inFlight, h.flatMap_named hf hp hIn]
    cases p.worker <;> simp [Worker.inFlight]

theorem Sound.started_ordered (name : ν) :
    ((d.started.filter fun e => e.node = name).map (·.number)).Pairwise (· < ·) := by
  rw [pairwise_map, pairwise_filter]
  refine h.startedInOrder.imp fun hOrder ha hb => hOrder ?_
  rw [decide_eq_true_eq] at ha hb
  exact ha.trans hb.symm

end

theorem filter_name_set (hp : objects[i]? = some p) (hOld : p.name ≠ name) (hNew : p'.name ≠ name) :
    ((objects.set i p').filter fun q => q.name = name) = objects.filter fun q => q.name = name := by
  obtain ⟨before, after, hSplit, -, hSet⟩ := split_at hp
  rw [hSet, hSplit, filter_append, filter_append, filter_cons_of_neg (by simpa using hNew),
    filter_cons_of_neg (by simpa using hOld)]

theorem queueAt_waiting (h : Sound d) (hOpen : d.stopped = false)
    (hp : d.objects[i]? = some p) (hIn : p.registered)
    (hStep : d.queueAt i p.name size = some d') :
    ∃ k, d'.waiting p.name = (d.waiting p.name).drop k ++ [⟨d.enqueued, p.name, size⟩] ∧
      d'.owed = d.owed ++ ((d.waiting p.name).take k).map (fun e => (e.number, .queueFull)) ∧
      (∀ j < k, Full size ((d.waiting p.name).drop j)) ∧
      ∀ other, other ≠ p.name → d'.waiting other = d.waiting other := by
  have hSound := queueAt_sound h hOpen hp hIn hStep
  rw [queueAt, hp] at hStep
  cases hStep
  obtain ⟨k, hPush, hDropped, -, hFirst⟩ := (h.peer i p hp).push_eq ⟨d.enqueued, p.name, size⟩
  have hi := (List.getElem?_eq_some_iff.mp hp).1
  refine ⟨k, ?_, ?_, ?_, fun other hOther => ?_⟩
  · have hNew : (d.objects.set i (p.push ⟨d.enqueued, p.name, size⟩))[i]? =
        some (p.push ⟨d.enqueued, p.name, size⟩) := by simp [hi]
    have hWaiting := hSound.waiting_eq hNew (by rw [hPush]; exact hIn)
    rw [h.waiting_eq hp hIn]
    rw [hPush] at hWaiting ⊢
    exact hWaiting
  · rw [h.waiting_eq hp hIn, hDropped]
  · rw [h.waiting_eq hp hIn]
    exact hFirst
  · rw [waiting, waiting,
      filter_name_set hp (Ne.symm hOther) (by rw [hPush]; exact Ne.symm hOther)]

theorem enqueue_waiting (h : Sound d) (hOpen : d.stopped = false)
    (hStep : d.enqueue name size = some d') :
    ∃ k, d'.waiting name = (d.waiting name).drop k ++ [⟨d.enqueued, name, size⟩] ∧
      d'.owed = d.owed ++ ((d.waiting name).take k).map (fun e => (e.number, .queueFull)) ∧
      (∀ j < k, Full size ((d.waiting name).drop j)) ∧
      ∀ other, other ≠ name → d'.waiting other = d.waiting other := by
  obtain ⟨hStop, -⟩ | ⟨-, i, hFound, hQueue⟩ | ⟨-, hNone, hQueue⟩ := enqueue_inv hStep
  · rw [hOpen] at hStop
    cases hStop
  · obtain ⟨p, hp, hIn, rfl⟩ := lookup_eq_some hFound
    exact queueAt_waiting h hOpen hp hIn hQueue
  have hReg : ∀ other, (d.register name).waiting other = d.waiting other := by
    intro other
    simp only [waiting, register, filter_append,
      flatMap_append]
    by_cases hOther : name = other <;> simp [newReliablePeer, hOther]
  obtain ⟨k, hWaiting, hOwed, hFirst, hOthers⟩ := queueAt_waiting (p := newReliablePeer name)
    (register_sound h hNone) hOpen (register_objects d name) rfl hQueue
  exact ⟨k, hReg name ▸ hWaiting, hReg name ▸ hOwed, hReg name ▸ hFirst,
    fun other hOther => (hOthers other hOther).trans (hReg other)⟩

theorem step_frame (hStep : d.step action = some d') : (∃ name size, action = .enqueue name size) ∨
      (∀ n, (n, Outcome.queueFull) ∈ d'.owed → (n, Outcome.queueFull) ∈ d.owed) ∧
      (d.stopped → d'.stopped = true) ∧
      (d'.started = d.started ∨ ∃ p ∈ d.objects, p.queue ≠ []) := by
  cases action with
  | enqueue name size => exact .inl ⟨name, size, rfl⟩
  | check i =>
    obtain ⟨p, hp, -, hStep⟩ := found_guard hStep
    split at hStep
    · cases hStep
      exact .inr ⟨fun _ => id, id, .inl rfl⟩
    · next e rest hQueue =>
      cases hStep
      exact .inr ⟨fun _ => id, id, .inr ⟨p, mem_of_getElem? hp, by simp [hQueue]⟩⟩
  | wakeUp i | idleTimeout i =>
    obtain ⟨p, -, -, hStep⟩ := found_guard hStep
    cases hStep
    exact .inr ⟨fun _ => id, id, .inl rfl⟩
  | expire i =>
    obtain ⟨p, -, -, hStep⟩ := found_guard hStep
    split at hStep <;> cases hStep <;> exact .inr ⟨fun _ => id, id, .inl rfl⟩
  | complete i result =>
    obtain ⟨p, -, hStep⟩ := bind_eq_some_iff.mp hStep
    split at hStep <;> cases hStep
    exact .inr ⟨fun _ => id, id, .inl rfl⟩
  | signal k =>
    obtain ⟨i, -, hStep⟩ := bind_eq_some_iff.mp hStep
    obtain ⟨p, -, hStep⟩ := bind_eq_some_iff.mp hStep
    cases hStep
    exact .inr ⟨fun _ => id, id, .inl rfl⟩
  | report k =>
    obtain ⟨call, -, hStep⟩ := bind_eq_some_iff.mp hStep
    cases hStep
    exact .inr ⟨fun _ hn => mem_of_mem_eraseIdx hn, id, .inl rfl⟩
  | close =>
    rw [← some.inj hStep, close]
    split
    · exact .inr ⟨fun _ => id, id, .inl rfl⟩
    · exact .inr ⟨fun n hn => by simpa using hn, fun _ => rfl, .inl rfl⟩

theorem Sound.step_stopped (h : Sound d) (hStop : d.stopped)
    (hStep : d.step action = some d') : d'.started = d.started ∧ d'.stopped := by
  rcases step_frame hStep with ⟨name, size, rfl⟩ | ⟨-, hStays, hStarted | ⟨p, hp, hQueue⟩⟩
  · obtain ⟨-, rfl⟩ | ⟨hOpen, -⟩ | ⟨hOpen, -⟩ := enqueue_inv hStep
    · exact ⟨rfl, hStop⟩
    · rw [hStop] at hOpen
      cases hOpen
    · rw [hStop] at hOpen
      cases hOpen
  · exact ⟨hStarted, hStays hStop⟩
  · obtain ⟨i, hPeer⟩ := h.of_mem hp
    exact absurd (hPeer.closed hStop) hQueue

theorem Sound.close_stops (h : Sound d) : d.close.stopped = true ∧ d.close.started = d.started ∧
    (∀ name, d.close.waiting name = []) ∧
    d.close.owed = d.owed ++ (d.objects.flatMap (·.queue)).map fun e => (e.number, .stopped) := by
  have hAbandoned : d.objects.flatMap abandoned = d.objects.flatMap (·.queue) := by
    refine flatMap_congr fun p hp => ?_
    obtain ⟨i, hPeer⟩ := h.of_mem hp
    cases hIn : p.registered with
    | true => simp [abandoned, hIn]
    | false => simp [abandoned, hIn, (hPeer.queue_of_unregistered hIn).2]
  have hClosed : ∀ {d : ReliableDelivery ν ε}, Sound d → d.stopped = true → ∀ p ∈ d.objects, p.queue = [] :=
    fun hSound hStop p hp => (hSound.of_mem hp).elim fun _ hPeer => hPeer.closed hStop
  have hStopped : d.close.stopped = true := by
    unfold close
    split
    · assumption
    · rfl
  refine ⟨hStopped, ?_, fun name => ?_, ?_⟩
  · unfold close
    split <;> rfl
  · exact flatMap_eq_nil_iff.mpr fun p hp => hClosed (close_sound h) hStopped p (mem_filter.mp hp).1
  · unfold close
    split
    · next hStop => simp [flatMap_eq_nil_iff.mpr (hClosed h hStop)]
    · rw [hAbandoned]

/-- In every state that reliable delivery reaches: each `done` is called at most once, and exactly
once when every goroutine is at rest; sends to a peer start in the order of enqueueing and never
overlap; the queues keep their bounds; room is made only by dropping the oldest waiting envelopes;
closing stops it and reports what is waiting; and once closed nothing new is sent. -/
theorem reliableDelivery_exactly_once (h : Reaches ReliableDelivery.step (newReliableDelivery ν ε) d) :
    (d.called.map fst).Nodup ∧ (∀ n ∈ d.called.map fst, n < d.enqueued) ∧
    (d.Quiescent → ∀ n < d.enqueued, (d.called.map fst).count n = 1) ∧
    (∀ name, ((d.started.filter fun e => e.node = name).map (·.number)).Pairwise (· < ·) ∧
      (d.inFlight name).length ≤ 1) ∧ (∀ name, (d.waiting name).length ≤ reliablePeerQueueEnvelopes ∧
      ((d.waiting name).length ≤ 1 ∨ bytesOf (d.waiting name) ≤ reliablePeerQueueBytes)) ∧
    (∀ name size d', d.stopped = false → d.step (.enqueue name size) = some d' →
      ∃ k, d'.waiting name = (d.waiting name).drop k ++ [⟨d.enqueued, name, size⟩] ∧
        d'.owed = d.owed ++ ((d.waiting name).take k).map (fun e => (e.number, .queueFull)) ∧
        (∀ j < k, Full size ((d.waiting name).drop j)) ∧
        ∀ other, other ≠ name → d'.waiting other = d.waiting other) ∧
    (∀ action d', d.step action = some d' → (∃ name size, action = .enqueue name size) ∨
      ∀ n, (n, Outcome.queueFull) ∈ d'.owed → (n, Outcome.queueFull) ∈ d.owed) ∧
    (∀ d', d.step .close = some d' → d'.stopped = true ∧ d'.started = d.started ∧
      (∀ name, d'.waiting name = []) ∧
      d'.owed = d.owed ++ (d.objects.flatMap (·.queue)).map fun e => (e.number, .stopped)) ∧
    (d.stopped = true → ∀ action d', d.step action = some d' →
      d'.started = d.started ∧ d'.stopped = true) := by
  have hSound := reaches_sound h
  exact ⟨hSound.called_nodup, hSound.called_lt, fun hQuiet _ hn => hSound.called_once hQuiet hn,
    fun name => ⟨hSound.started_ordered name, hSound.inFlight_one name⟩, hSound.waiting_bounded,
    fun name size d' hOpen hStep => enqueue_waiting hSound hOpen hStep,
    fun action d' hStep => (step_frame hStep).imp_right And.left,
    fun d' hStep => some.inj hStep ▸ hSound.close_stops,
    fun hStop action d' hStep => hSound.step_stopped hStop hStep⟩

end Steps

/-- Two peers: one send fails, the next one to that peer is in flight, and an envelope waits for the
other peer. -/
def twoPeers : List (Action Nat Unit) :=
  [.enqueue 7 100, .enqueue 8 200, .enqueue 7 300, .check 0, .check 1, .complete 1 (.ok ()),
    .complete 0 (.error ()), .check 0, .enqueue 8 50]

def twoPeersClosed : List (Action Nat Unit) :=
  twoPeers ++ [.close, .complete 0 (.ok ()), .check 0, .check 1, .report 0, .signal 0, .signal 0,
    .signal 0, .signal 0]

theorem reliableDelivery_exactly_once_twoPeers :
    ∃ d d', Reaches ReliableDelivery.step (newReliableDelivery Nat Unit) d ∧
      (d.waiting 8).map (·.number) = [3] ∧ d.close.owed = [(3, .stopped)] ∧
      Reaches ReliableDelivery.step (newReliableDelivery Nat Unit) d' ∧ d'.Quiescent ∧
      d'.called.map fst = [1, 0, 2, 3] ∧ ∀ n < 4, (d'.called.map fst).count n = 1 := by
  have hRun : ∃ d, twoPeers.foldlM ReliableDelivery.step (newReliableDelivery Nat Unit) = some d ∧
      (d.waiting 8).map (·.number) = [3] ∧ d.owed = [] ∧ d.objects.flatMap (·.queue) = [⟨3, 8, 50⟩] :=
    ⟨_, rfl, rfl, rfl, rfl⟩
  have hEnd : ∃ d, twoPeersClosed.foldlM ReliableDelivery.step (newReliableDelivery Nat Unit) = some d ∧
      d.owed = [] ∧ d.signals = [] ∧ d.enqueued = 4 ∧ d.called.map fst = [1, 0, 2, 3] ∧
      d.objects.map (·.worker) = [.exited, .exited] := ⟨_, rfl, rfl, rfl, rfl, rfl, rfl⟩
  obtain ⟨d, hRun, hWaiting, hOwed, hQueues⟩ := hRun
  obtain ⟨d', hRun', hOwed', hSignals, hEnqueued, hCalled, hWorkers⟩ := hEnd
  have hReach := reaches_of_foldlM hRun
  have hReach' := reaches_of_foldlM hRun'
  obtain ⟨-, -, -, hClose⟩ := (reliableDelivery_exactly_once hReach).2.2.2.2.2.2.2.1 _ rfl
  have hQuiet : d'.Quiescent := by
    refine ⟨hOwed', hSignals, fun p hp => .inl ?_⟩
    simpa [hWorkers] using mem_map_of_mem (f := (·.worker)) hp
  refine ⟨d, d', hReach, hWaiting, ?_, hReach', hQuiet, hCalled, fun n hn => ?_⟩
  · rw [hClose, hOwed, hQueues]
    rfl
  · exact (reliableDelivery_exactly_once hReach').2.2.1 hQuiet n (hEnqueued ▸ hn)

end Proctor.Cluster
