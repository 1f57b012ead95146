import Proctor.Delivery.Abstraction

/-!
# Families as books

The operations of a family are followed on its book. A move takes the book
through changes of the ledger; a quiet move charges nothing.
-/

namespace Proctor.Delivery

open Ranges Ledger Fallible List FamilyState

def deliveryLimits (native : Bool) : Limits where
  scope := (recordLimitOf false, byteLimitOf false, positionLimitOf native false)
  whole := (recordLimitOf true, byteLimitOf true, positionLimitOf native true)
  pending := deliveryPendingByteLimit
  reserve := deliveryRepairReservationBytes
  intervals := deliveryMissingIntervalLimit
  scope_nonneg := by cases native <;> decide
  whole_nonneg := by cases native <;> decide
  reserve_le := by decide
  intervals_nonneg := by decide

def ScopeCounters.scope (c : ScopeCounters) : Scope :=
  ⟨(c.records, c.bytes, c.positions), c.summaryOnly⟩

section Family

variable {α : Type}

/-- The position counter of a Native Participation is in its stream. -/
def streamScope (c : ScopeCounters) (s : DeliverySource α) : Scope :=
  ⟨(c.records, c.bytes, s.allocated), c.summaryOnly⟩

def FamilyState.scopes (native : Bool) (f : FamilyState α) : List Scope :=
  if native then List.zipWith streamScope f.participations f.sources
  else f.participations.map ScopeCounters.scope

def FamilyState.book (native : Bool) (intervals : Int) (f : FamilyState α) : Book where
  lanes := f.sources.map DeliverySource.lane
  scopes := f.scopes native
  whole := f.attempt.scope
  pending := f.pending
  intervals := intervals

structure FamilyState.Regular (native : Bool) (f : FamilyState α) : Prop where
  seen : ∀ s ∈ f.sources, s.seen ≤ s.allocated
  streams : native = true → f.sources.length = f.participations.length
  owner : native = true → ∀ (p : Nat) (s : DeliverySource α), f.sources[p]? = some s →
    s.participation = p

structure FamilyState.Good (native : Bool) (intervals : Int) (f : FamilyState α) : Prop where
  sound : (f.book native intervals).Sound (deliveryLimits native)
  regular : f.Regular native

/-- A move may raise the count of declared intervals from `i` to `i'`. -/
structure Moves (native : Bool) (i i' : Int) (f f' : FamilyState α) : Prop where
  changes : Changes (deliveryLimits native) (f.book native i) (f'.book native i')
  regular : f.Regular native → f'.Regular native
  participations : f'.participations.length = f.participations.length
  retired : f'.retired = f.retired

def usagesOf (b : Book) : List Usage × Usage :=
  (b.scopes.map Scope.usage, b.whole.usage)

structure Quiet (native : Bool) (intervals : Int) (f f' : FamilyState α) : Prop
    extends Moves native intervals intervals f f' where
  usage : usagesOf (f'.book native intervals) = usagesOf (f.book native intervals)

variable {native : Bool} {intervals i i' i'' : Int} {f f' f'' : FamilyState α}

theorem Moves.good (hMoves : Moves native i i' f f') (hGood : f.Good native i) : f'.Good native i' :=
  ⟨Changes.sound hMoves.changes hGood.sound, hMoves.regular hGood.regular⟩

theorem Moves.refl (f : FamilyState α) : Moves native intervals intervals f f :=
  ⟨.refl, id, rfl, rfl⟩

theorem Moves.trans (h : Moves native i i' f f') (h' : Moves native i' i'' f' f'') :
    Moves native i i'' f f'' :=
  ⟨h.changes.trans h'.changes, h'.regular ∘ h.regular,
    h'.participations.trans h.participations, h'.retired.trans h.retired⟩

theorem Quiet.refl (f : FamilyState α) : Quiet native intervals f f :=
  ⟨Moves.refl f, rfl⟩

theorem Quiet.trans (h : Quiet native intervals f f') (h' : Quiet native intervals f' f'') :
    Quiet native intervals f f'' :=
  ⟨h.toMoves.trans h'.toMoves, h'.usage.trans h.usage⟩

/-! ## Updates of one source -/

variable {j : Nat} {s : DeliverySource α} {bytes positions ranges records : Int}

theorem FamilyState.Good.lane (hGood : f.Good native intervals)
    (hSrc : f.sources[j]? = some s) : s.lane.Sound :=
  hGood.sound.lane _ (mem_map_of_mem (mem_of_getElem? hSrc))

theorem FamilyState.Good.seen (hGood : f.Good native intervals)
    (hSrc : f.sources[j]? = some s) : s.seen ≤ s.allocated :=
  hGood.regular.seen s (mem_of_getElem? hSrc)

theorem lanes_getElem? (hSrc : f.sources[j]? = some s) :
    (f.book native intervals).lanes[j]? = some s.lane := by
  simp [book, hSrc]

theorem zipWith_set_right {β γ δ : Type} (g : β → γ → δ) {xs : List β} {ys : List γ}
    {y y' : γ} (hy : ys[j]? = some y) (hSame : ∀ x, g x y' = g x y) :
    List.zipWith g xs (ys.set j y') = List.zipWith g xs ys := by
  refine ext_getElem? fun i => ?_
  simp only [getElem?_zipWith, getElem?_set]
  by_cases hIndex : j = i
  · subst hIndex
    have hBound := (List.getElem?_eq_some_iff.mp hy).1
    simp only [if_true, hBound, hy]
    cases xs[j]? <;> simp [hSame]
  · simp [hIndex]

variable {s' : DeliverySource α}

theorem scopes_putSource (hSrc : f.sources[j]? = some s)
    (hAlloc : s'.allocated = s.allocated) : (f.putSource j s').scopes native = f.scopes native := by
  cases native with
  | false => rfl
  | true => exact zipWith_set_right _ hSrc fun c => by simp [streamScope, hAlloc]

theorem Regular.putSource (hRegular : f.Regular native)
    (hSrc : f.sources[j]? = some s) (hSeen : s'.seen ≤ s'.allocated)
    (hOwner : s'.participation = s.participation) : (f.putSource j s').Regular native where
  seen := fun t ht => by
    obtain ht | rfl := mem_or_eq_of_mem_set ht
    · exact hRegular.seen t ht
    · exact hSeen
  streams := fun hNative => by simpa [FamilyState.putSource] using hRegular.streams hNative
  owner := fun hNative p t ht => by
    simp only [FamilyState.putSource, getElem?_set] at ht
    by_cases hIndex : j = p
    · subst hIndex
      have hBound := (List.getElem?_eq_some_iff.mp hSrc).1
      simp only [if_true, hBound, Option.some.injEq] at ht
      rw [← ht, hOwner]
      exact hRegular.owner hNative j s hSrc
    · exact hRegular.owner hNative p t (by simpa [hIndex] using ht)

section

variable (hSrc : f.sources[j]? = some s)
include hSrc

theorem quiet_putSource
    (hStep : s.lane.Step 0 0 s'.lane) (hAlloc : s'.allocated = s.allocated)
    (hSeen : s.seen ≤ s.allocated → s'.seen ≤ s'.allocated)
    (hPend : pendingOf s'.lane.entries ≤ pendingOf s.lane.entries) :
    Quiet native intervals f { f.putSource j s' with
      pending := f.pending + (pendingOf s'.lane.entries - pendingOf s.lane.entries) } := by
  have hScopes : (f.putSource j s').scopes native = f.scopes native :=
    scopes_putSource hSrc hAlloc
  have hBook : (book native intervals { f.putSource j s' with
      pending := f.pending + (pendingOf s'.lane.entries - pendingOf s.lane.entries) }) =
      (f.book native intervals).put j s'.lane 0
        (f.pending + (pendingOf s'.lane.entries - pendingOf s.lane.entries)) (intervals + 0) := by
    have hNone : Scope.charge 0 = id := by
      funext scope
      simp [Scope.charge]
    simp only [book, Book.put, putSource, map_set, hNone,
      modify_id, id_eq, add_zero, Book.mk.injEq, true_and, and_true]
    exact hScopes
  refine ⟨⟨?_, fun hRegular => ?_, rfl, rfl⟩, ?_⟩
  · rw [hBook]
    exact .single (.lane (lanes_getElem? hSrc) hStep (Or.inl rfl) (Or.inl hPend) (Or.inl rfl))
  · have hKept := Regular.putSource hRegular hSrc
      (hSeen (hRegular.seen s (mem_of_getElem? hSrc))) hStep.scope_eq
    exact ⟨hKept.seen, hKept.streams, hKept.owner⟩
  · exact Prod.ext (congrArg (List.map Scope.usage) hScopes) rfl

theorem quiet_rebound
    (hStep : s.lane.Step 0 0 s'.lane) (hAlloc : s'.allocated = s.allocated)
    (hSeen : s'.seen = s.seen) (hRows : s'.rows = s.rows) :
    Quiet native intervals f (f.putSource j s') := by
  have hEnts : s'.lane.entries = s.lane.entries := by simp [DeliverySource.lane, hRows]
  have hQuiet : Quiet native intervals f _ :=
    quiet_putSource hSrc hStep hAlloc (by rw [hSeen, hAlloc]; exact id)
      (by rw [hEnts])
  simp only [hEnts, sub_self, add_zero] at hQuiet
  exact hQuiet

theorem quiet_same
    (hLane : s'.lane = s.lane) (hSeen : s'.seen = s.seen) :
    Quiet native intervals f (f.putSource j s') := by
  have hAlloc : s'.allocated = s.allocated := congrArg Lane.allocated hLane
  have hOwner : s'.participation = s.participation := congrArg Lane.scope hLane
  have hBound := (List.getElem?_eq_some_iff.mp hSrc).1
  have hBook : (f.putSource j s').book native intervals = f.book native intervals := by
    have hLanes : (f.sources.set j s').map DeliverySource.lane =
        f.sources.map DeliverySource.lane := by
      rw [List.map_set, hLane]
      refine List.ext_getElem? fun i => ?_
      rw [List.getElem?_set]
      split
      next hIndex =>
        subst hIndex
        simp [hBound, (List.getElem?_eq_some_iff.mp hSrc).2]
      · rfl
    simp only [book, Book.mk.injEq]
    exact ⟨hLanes, scopes_putSource hSrc hAlloc, rfl, rfl, trivial⟩
  refine ⟨⟨hBook ▸ .refl, fun hRegular => ?_, rfl, rfl⟩, by rw [hBook]⟩
  refine Regular.putSource hRegular hSrc ?_ hOwner
  rw [hSeen, hAlloc]
  exact hRegular.seen s (List.mem_of_getElem? hSrc)

end

/-! ## Charges -/

theorem map_modify {β γ : Type} (g : β → γ) (c : β → β) (d : γ → γ)
    (hCommute : ∀ x, g (c x) = d (g x)) (xs : List β) (i : Nat) :
    (xs.modify i c).map g = (xs.map g).modify i d := by
  refine ext_getElem? fun k => ?_
  simp only [getElem?_map, getElem?_modify]
  cases xs[k]? with
  | none => rfl
  | some x =>
    split <;> simp [hCommute]

def FamilyState.chargeSource (f : FamilyState α) (j : Nat) (s : DeliverySource α)
    (records bytes positions pending : Int) : FamilyState α :=
  { (f.charge s.participation records bytes positions).putSource j s with pending := pending }

theorem book_chargeSource (f : FamilyState α) (j : Nat) (s : DeliverySource α)
    (records bytes positions pending intervals' : Int) :
    (f.chargeSource j s records bytes positions pending).book false intervals' =
      (f.book false intervals).put j s.lane (records, bytes, positions) pending intervals' := by
  have hScopes : (f.participations.modify s.participation
      (ScopeCounters.charge records bytes positions)).map ScopeCounters.scope =
      (f.participations.map ScopeCounters.scope).modify s.participation
        (Scope.charge (records, bytes, positions)) :=
    map_modify ScopeCounters.scope (ScopeCounters.charge records bytes positions)
      (Scope.charge (records, bytes, positions)) (fun c => rfl) f.participations s.participation
  simp only [book, chargeSource, putSource, charge,
    scopes, Book.put, map_set, Bool.false_eq_true, if_false, hScopes]
  rfl

def FamilyState.chargeOwner (f : FamilyState α) (p : Nat) (s : DeliverySource α)
    (records bytes positions pending : Int) : FamilyState α :=
  { (f.chargeStream p records bytes positions).putSource p s with pending := pending }

theorem book_chargeOwner (hRegular : f.Regular true) {p : Nat}
    (hSrc : f.sources[p]? = some s) (hOwner : s'.participation = s.participation)
    (records bytes positions pending intervals' : Int)
    (hAlloc : s'.allocated = s.allocated + positions) :
    (f.chargeOwner p s' records bytes positions pending).book true intervals' =
      (f.book true intervals).put p s'.lane (records, bytes, positions) pending intervals' := by
  have hIndex : s'.participation = p := hOwner.trans (hRegular.owner rfl p s hSrc)
  have hBound := (List.getElem?_eq_some_iff.mp hSrc).1
  have hScopes : List.zipWith streamScope
      (f.participations.modify p (ScopeCounters.charge records bytes 0)) (f.sources.set p s') =
      (List.zipWith streamScope f.participations f.sources).modify p
        (Scope.charge (records, bytes, positions)) := by
    refine List.ext_getElem? fun k => ?_
    simp only [List.getElem?_zipWith, List.getElem?_modify, List.getElem?_set]
    by_cases hSame : p = k
    · subst hSame
      simp only [if_true, hBound, hSrc]
      cases f.participations[p]? <;>
        simp [streamScope, Scope.charge, ScopeCounters.charge, hAlloc]
    · simp only [hSame, if_false]
      cases f.participations[k]? <;> cases f.sources[k]? <;> rfl
  simp only [book, chargeOwner, putSource,
    chargeStream, scopes, Book.put, List.map_set, if_true, hScopes,
    DeliverySource.lane, hIndex]
  rfl

structure Charged (native : Bool) (intervals : Int) (f : FamilyState α) (s s' : DeliverySource α)
    (charge : Usage) (ranges : Int) : Prop where
  step : s.lane.Step charge ranges s'.lane
  admits : charge = 0 ∨ (f.book native intervals).Admits (deliveryLimits native) s.lane.scope charge
  pending : pendingOf s'.lane.entries ≤ pendingOf s.lane.entries ∨
    f.pending + (pendingOf s'.lane.entries - pendingOf s.lane.entries) ≤
      deliveryPendingByteLimit - deliveryRepairReservationBytes
  ranges : ranges = 0 ∨ intervals + ranges ≤ deliveryMissingIntervalLimit
  seen : s'.seen ≤ s'.allocated

theorem Charged.moves_source (hSrc : f.sources[j]? = some s)
    (h : Charged false intervals f s s' (records, bytes, positions) ranges) :
    Moves false intervals (intervals + ranges) f (f.chargeSource j s' records bytes positions
      (f.pending + (pendingOf s'.lane.entries - pendingOf s.lane.entries))) where
  changes := by
    rw [book_chargeSource]
    exact .single (.lane (lanes_getElem? hSrc) h.step h.admits h.pending h.ranges)
  regular := fun hRegular =>
    ⟨(Regular.putSource hRegular hSrc h.seen h.step.scope_eq).seen, nofun, nofun⟩
  participations := by simp [chargeSource, putSource, charge]
  retired := rfl

theorem Charged.moves_owner {p : Nat} (hRegular : f.Regular true) (hSrc : f.sources[p]? = some s)
    (h : Charged true intervals f s s' (records, bytes, positions) ranges)
    (hAlloc : s'.allocated = s.allocated + positions) :
    Moves true intervals (intervals + ranges) f (f.chargeOwner p s' records bytes positions
      (f.pending + (pendingOf s'.lane.entries - pendingOf s.lane.entries))) where
  changes := by
    rw [book_chargeOwner hRegular hSrc h.step.scope_eq _ _ _ _ _ hAlloc]
    exact .single (.lane (lanes_getElem? hSrc) h.step h.admits h.pending h.ranges)
  regular := fun _ => by
    have hKept := Regular.putSource hRegular hSrc h.seen h.step.scope_eq
    refine ⟨hKept.seen, fun hNative => ?_, hKept.owner⟩
    simpa [chargeOwner, putSource, chargeStream] using
      hRegular.streams hNative
  participations := by
    simp [chargeOwner, putSource, chargeStream]
  retired := rfl

/-! ## Latches -/

theorem scopes_stopParticipation (f : FamilyState α) (p : Nat) (reason : DeliveryStopReason) :
    (f.stopParticipation p reason).scopes native = (f.scopes native).modify p Scope.freeze := by
  cases native with
  | false =>
    exact map_modify ScopeCounters.scope (ScopeCounters.stop reason) Scope.freeze (fun c => rfl)
      f.participations p
  | true =>
    refine ext_getElem? fun k => ?_
    simp only [scopes, stopParticipation, if_true, getElem?_zipWith,
      getElem?_modify]
    cases f.participations[k]? <;> cases f.sources[k]? <;> simp
    split <;> rfl

theorem quiet_stopParticipation (p : Nat) (reason : DeliveryStopReason) :
    Quiet native intervals f (f.stopParticipation p reason) := by
  have hScopes : (f.stopParticipation p reason).scopes native =
      (f.scopes native).modify p Scope.freeze := scopes_stopParticipation f p reason
  have hBook : (f.stopParticipation p reason).book native intervals =
      { f.book native intervals with
        scopes := (f.book native intervals).scopes.modify p Scope.freeze } := by
    simp only [book, hScopes]
    rfl
  refine ⟨⟨hBook ▸ .single (.freezeScope p), fun hRegular => ?_, ?_, rfl⟩, ?_⟩
  · exact ⟨hRegular.seen, fun hNative => by
      simpa [stopParticipation] using hRegular.streams hNative, hRegular.owner⟩
  · simp [stopParticipation]
  rw [hBook]
  refine Prod.ext ?_ rfl
  have hUsage := map_modify Scope.usage Scope.freeze id (fun scope => rfl)
    (f.book native intervals).scopes p
  rwa [modify_id] at hUsage

theorem quiet_stopAttempt (reason : DeliveryStopReason) :
    Quiet native intervals f (f.stopAttempt reason) := by
  have hBook : (f.stopAttempt reason).book native intervals =
      { f.book native intervals with whole := (f.book native intervals).whole.freeze } := by
    cases native <;> rfl
  refine ⟨⟨hBook ▸ .single .freezeWhole, fun hRegular => ?_, rfl, rfl⟩, by rw [hBook]; rfl⟩
  exact ⟨hRegular.seen, hRegular.streams, hRegular.owner⟩

def terminated (chosen : DeliverySource α → Bool) (s : DeliverySource α) : DeliverySource α :=
  if chosen s then { s with terminal := s.allocated } else s

variable (chosen : DeliverySource α → Bool)
include chosen

theorem quiet_terminate_from
    (before rest : List (DeliverySource α)) :
    Quiet native intervals { f with sources := before ++ rest }
      { f with sources := before ++ rest.map (terminated chosen) } := by
  induction rest generalizing before with
  | nil => exact Quiet.refl _
  | cons s rest ih =>
    have hSrc : (sources { f with sources := before ++ s :: rest })[before.length]? =
        some s := by simp
    have hFirst : Quiet native intervals { f with sources := before ++ s :: rest }
        { f with sources := before ++ terminated chosen s :: rest } := by
      have hPut : putSource { f with sources := before ++ s :: rest } before.length
          (terminated chosen s) = { f with sources := before ++ terminated chosen s :: rest } := by
        simp [putSource]
      rw [← hPut]
      simp only [terminated]
      split
      · exact quiet_rebound hSrc .terminate rfl rfl rfl
      · exact quiet_same hSrc rfl rfl
    have hRest := ih (before ++ [terminated chosen s])
    simp only [append_assoc, singleton_append] at hRest
    simpa using hFirst.trans hRest

theorem quiet_terminate :
    Quiet native intervals f (f.terminate chosen) :=
  quiet_terminate_from chosen [] f.sources

end Family

end Proctor.Delivery
