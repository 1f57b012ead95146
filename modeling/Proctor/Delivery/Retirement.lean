import Proctor.Delivery.Runs

/-!
# Retirement

A category of a Submission's records is retired once, when its grace ends. The Browser sources are
reviewed a last time and deleted; a Native stream keeps its owner and loses its
records. Either family is fenced from then on, and its pending counter is zero.
-/

namespace Proctor.Delivery

open Ranges Ledger Fallible

section Retire

variable {α β : Type} (reading : Reading α)

def DeliveryClosure.retireAt (c : DeliveryClosure) (instant : Instant) : DeliveryClosure :=
  if c.uploadExpiresAt.all fun expires => expires > instant then
    { c with uploadExpiresAt := some instant }
  else c

def retireBrowserSource (now instant : Instant) (f : FamilyState α) (j : Nat) :
    Except Fault (FamilyState α) := do
  let s ← f.source j
  require (s.closure.validate false && s.isClosed) .invalidPersistedState
  let retiring := { s with closure := s.closure.retireAt instant }
  let counters ← f.counters s.participation
  let state ← browserSourceState now (f.summaryOnly counters) retiring
  updateBrowserSourceSettlement reading (f.putSource j retiring) j state.2

def retireSubmissionBrowserActivity (a : Attempt α β) (instant : Instant) :
    Except Fault (Attempt α β) := do
  require (!a.browser.retired) .invalidInput
  require (a.browser.sources.length ≤ maximumAttemptBrowserSources) .invalidPersistedState
  let reviewed ← (List.range a.browser.sources.length).foldlM
    (retireBrowserSource reading a.now instant) a.browser
  return { a with browser := { reviewed with sources := [], pending := 0, retired := true } }

def DeliverySource.erase (s : DeliverySource β) : DeliverySource β :=
  { s with
    closure := .opened
    uploadExpired := true
    summary := none
    summaryReceivedAt := none
    rows := []
    declarations := [] }

def retireSubmissionSecurityOperational (a : Attempt α β) : Except Fault (Attempt α β) := do
  require (!a.native.retired) .invalidInput
  return { a with native := { a.native with
    sources := a.native.sources.map DeliverySource.erase
    pending := 0
    retired := true } }

inductive AttemptOp (α β : Type) where
  | deliver (op : DeliveryOp α β)
  | retireBrowser (instant : Instant)
  | retireSecurity

def AttemptOp.execute (browserReading : Reading α) (nativeReading : Reading β) (a : Attempt α β) :
    AttemptOp α β → Except Fault (Attempt α β × Outcome)
  | .deliver op => op.execute browserReading nativeReading a
  | .retireBrowser instant => accepted (retireSubmissionBrowserActivity browserReading a instant)
  | .retireSecurity => accepted (retireSubmissionSecurityOperational a)

def AttemptOp.step (browserReading : Reading α) (nativeReading : Reading β) (a : Attempt α β)
    (op : AttemptOp α β) : Attempt α β :=
  match op.execute browserReading nativeReading a with
  | .ok answer => answer.1
  | .error _ => a

def Attempt.afterAll (browserReading : Reading α) (nativeReading : Reading β) (start : Instant)
    (ops : List (AttemptOp α β)) : Attempt α β :=
  ops.foldl (AttemptOp.step browserReading nativeReading) (Attempt.initial start)

/-- Every record is accepted as it stands and gives no evidence. -/
def plainReading : Reading Unit where
  admission := fun _ _ => .ok ()
  accept := fun _ _ _ => .ok ()
  interpret := fun _ _ row => .ok row.payload
  unresolved := fun _ => false
  evidence := fun _ => none

end Retire

/-! ## Retired families -/

section Good

variable {α β : Type} {reading : Reading α} {a a' : Attempt α β}

theorem retireBrowserSource_counters {now instant : Instant} {f f' : FamilyState α} {j : Nat}
    (hRetire : retireBrowserSource reading now instant f j = .ok f') :
    f'.participations = f.participations ∧ f'.attempt = f.attempt := by
  simp only [retireBrowserSource, updateBrowserSourceSettlement, bind_ok_iff, pure_ok_iff] at hRetire
  obtain ⟨s, -, -, -, counters, -, state, -, marked, -, facts, -, -, -, rfl⟩ := hRetire
  exact ⟨rfl, rfl⟩

theorem retireSubmissionBrowserActivity_good {instant : Instant} (hGood : a.Good)
    (hRetire : retireSubmissionBrowserActivity reading a instant = .ok a') : a'.Good := by
  simp only [retireSubmissionBrowserActivity, bind_ok_iff, pure_ok_iff] at hRetire
  obtain ⟨-, -, -, -, reviewed, hReviewed, rfl⟩ := hRetire
  obtain ⟨hParts, hAtt⟩ : reviewed.participations = a.browser.participations ∧
      reviewed.attempt = a.browser.attempt :=
    foldlM_rel
      (R := fun f f' : FamilyState α =>
        f'.participations = f.participations ∧ f'.attempt = f.attempt)
      (I := fun _ => True) (fun _ => ⟨rfl, rfl⟩)
      (fun _ _ _ h h' => ⟨h'.1.trans h.1, h'.2.trans h.2⟩) (fun _ _ _ _ => trivial)
      (fun _ _ _ _ hStep => retireBrowserSource_counters hStep) trivial hReviewed
  have hSound : Book.Sound (deliveryLimits false)
      { a.browser.book false a.intervals with lanes := [], pending := 0 } :=
    hGood.browser.sound.erase nofun
  refine { hGood with
    browser := ⟨?_, by simp, nofun, nofun⟩
    browser_counters := by simpa [hParts] using hGood.browser_counters }
  simpa [FamilyState.book, FamilyState.scopes, hParts, hAtt] using hSound

theorem lane_erase (s : DeliverySource β) :
    s.erase.lane = { s.lane with boundary := none, entries := [], gaps := [] } := rfl

theorem erase_sound {s : DeliverySource β} (hSound : s.lane.Sound) : s.erase.lane.Sound := by
  rw [lane_erase]
  exact
    { ascending := .nil
      received_within := nofun
      bytes_nonneg := nofun
      gaps_proper := nofun
      gaps_within := nofun
      gaps_disjoint := .nil
      disjoint := fun _ hRecv => by simp [Lane.Received] at hRecv
      terminal_nonneg := hSound.terminal_nonneg
      terminal_le := hSound.terminal_le
      bounded := nofun }

theorem retireSubmissionSecurityOperational_good (hGood : a.Good)
    (hRetire : retireSubmissionSecurityOperational a = .ok a') : a'.Good := by
  simp only [retireSubmissionSecurityOperational, bind_ok_iff, pure_ok_iff] at hRetire
  obtain ⟨-, -, rfl⟩ := hRetire
  have hScopes : List.zipWith streamScope a.native.participations
      (a.native.sources.map DeliverySource.erase) =
      List.zipWith streamScope a.native.participations a.native.sources := by
    rw [List.zipWith_map_right]
    rfl
  have hErased : ∀ l ∈ a.native.sources.map (DeliverySource.lane ∘ DeliverySource.erase),
      l.Sound ∧ l.scope < (a.native.book true a.intervals).scopes.length ∧ l.entries = [] ∧
        l.gaps = [] := by
    intro l hl
    obtain ⟨s, hs, rfl⟩ := List.mem_map.mp hl
    have hLane : s.lane ∈ (a.native.book true a.intervals).lanes := List.mem_map_of_mem hs
    exact ⟨erase_sound (hGood.native.sound.lane s.lane hLane),
      hGood.native.sound.scope_lt s.lane hLane, rfl, rfl⟩
  have hSound := hGood.native.sound.erase hErased
  refine { hGood with
    native := ⟨?_, ?_, fun hNative => ?_, fun hNative p s hs => ?_⟩
    concluded := fun p s part hSrc _ hClosed => ?_ }
  · simpa [FamilyState.book, FamilyState.scopes, hScopes] using hSound
  · intro s hs
    obtain ⟨old, hOld, rfl⟩ := List.mem_map.mp hs
    exact hGood.native.regular.seen old hOld
  · simpa using hGood.native.regular.streams hNative
  · simp only [List.getElem?_map, Option.map_eq_some_iff] at hs
    obtain ⟨old, hOld, rfl⟩ := hs
    exact hGood.native.regular.owner hNative p old hOld
  · simp only [List.getElem?_map, Option.map_eq_some_iff] at hSrc
    obtain ⟨old, -, rfl⟩ := hSrc
    cases hClosed

variable {rb : Reading α} {rn : Reading β}

theorem AttemptOp.step_good (hGood : a.Good) (op : AttemptOp α β) : (op.step rb rn a).Good := by
  unfold AttemptOp.step
  split
  next answer hExec =>
    cases op with
    | deliver op => exact (op.execute_replies hGood hExec).reaches.good
    | retireBrowser instant =>
      exact retireSubmissionBrowserActivity_good hGood (accepted_ok hExec).1
    | retireSecurity =>
      exact retireSubmissionSecurityOperational_good hGood (accepted_ok hExec).1
  · exact hGood

theorem Attempt.afterAll_good (browserReading : Reading α) (nativeReading : Reading β)
    (start : Instant) (ops : List (AttemptOp α β)) :
    (Attempt.afterAll browserReading nativeReading start ops).Good := by
  have hRun : ∀ a : Attempt α β, a.Good →
      (ops.foldl (AttemptOp.step browserReading nativeReading) a).Good := by
    induction ops with
    | nil => exact fun a hGood => hGood
    | cons op rest ih => exact fun a hGood => ih _ (op.step_good hGood)
  exact hRun _ (Attempt.initial_good start)

end Good

end Proctor.Delivery
