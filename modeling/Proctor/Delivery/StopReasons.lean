import Proctor.Delivery.Pending

/-!
# Why a Native scope stops

An append and a control charge the Participation and the Attempt together. Either
scope may refuse, and the refusal latches one of them. An append latches the scope
that has no room. A control whose Attempt was latched before latches its
Participation for positions, whatever room the Participation has.
-/

namespace Proctor.Delivery

open Fallible List ScopeCounters Except

section Stops

variable {α β : Type}

def ScopeCounters.latch (c : ScopeCounters) : Bool × Option DeliveryStopReason := (c.summaryOnly, c.stopReason)

/-- Of each Participation whether it is summary-only, and the reason. -/
def FamilyState.stops (f : FamilyState β) : List (Bool × Option DeliveryStopReason) :=
  f.participations.map ScopeCounters.latch

def stopFor (reason : DeliveryStopReason) (latch : Bool × Option DeliveryStopReason) :
    Bool × Option DeliveryStopReason :=
  (true, latch.2.or (some reason))

theorem stops_modify (counters : List ScopeCounters) (p : Nat) {update : ScopeCounters → ScopeCounters}
    {change : Bool × Option DeliveryStopReason → Bool × Option DeliveryStopReason}
    (hChg : ∀ c, (update c).latch = change c.latch) :
    (counters.modify p update).map latch = (counters.map latch).modify p change := by
  apply ext_getElem?
  intro i
  simp only [getElem?_map, getElem?_modify]
  cases counters[i]? with
  | none => rfl
  | some c => by_cases hi : p = i <;> simp [hi, hChg]

theorem stops_charge (counters : List ScopeCounters) (p : Nat) (records bytes positions : Int) :
    (counters.modify p (charge records bytes positions)).map latch =
      counters.map latch := by
  have hSame : ∀ c, (charge records bytes positions c).latch = id c.latch := fun _ => rfl
  rw [stops_modify counters p hSame]
  exact modify_id p _

variable {rb : Reading α} {rn : Reading β} {a a' : Attempt α β} {p : Nat}

variable {s : DeliverySource β} {f f' : FamilyState β} {answer : Attempt α β × Outcome}
   {input : NativeAppend β} {mark : DeliveryWatermark}

theorem closeEndedNativeDelivery_stops {guarded : Bool}
    (h : closeEndedNativeDelivery rb a p s guarded = .ok a') : a'.native.stops = a.native.stops := by
  obtain ⟨part, -, h⟩ := bind_ok h
  split_ifs at h
  · rw [pure_ok h]
  · simp only [closeNativeDelivery, bind_ok_iff, pure_ok_iff] at h
    obtain ⟨_, -, _, -, _, -, _, -, _, -, rfl⟩ := h
    rfl
  · obtain ⟨_, -, h⟩ := bind_ok h
    rw [pure_ok h]

theorem lockNativeDelivery_stops {guarded : Bool} (h : lockNativeDelivery rb a p guarded = .ok a') :
    a'.native.stops = a.native.stops := by
  simp only [lockNativeDelivery, bind_ok_iff] at h
  obtain ⟨_, -, _, -, _, -, closed, hClosed, h⟩ := h
  rw [← closeEndedNativeDelivery_stops hClosed]
  obtain ⟨s, -, h⟩ := bind_ok h
  split_ifs at h
  · obtain ⟨_, -, h⟩ := bind_ok h
    rw [← pure_ok h]
    rfl
  · rw [pure_ok h]

theorem advanceNativeInterpretation_stops
    (h : advanceNativeInterpretation rn f p = .ok f') : f'.stops = f.stops := by
  obtain ⟨_, _, _, -, -, -, rfl⟩ := advanceNativeInterpretation_ok h
  rfl

theorem latchDeliveryMetadata_stops (h : latchDeliveryMetadata rb a = .ok a') :
    a'.native.stops = a.native.stops := by
  obtain ⟨_, -, h⟩ := bind_ok h
  rw [← pure_ok h]
  rfl

/-! ## Appends -/

/-- What is left to the Participation itself does not hold the batch. -/
def NativeAppend.Exceeds (input : NativeAppend β) (a : Attempt α β) (reason : DeliveryStopReason) : Prop :=
  ∃ s counters, a.native.source input.stream = .ok s ∧ a.native.counters input.stream = .ok counters ∧
    (nativeQuotas s counters a.native.attempt).1.exceeded input.records input.bytes
      (max 0 (input.sequence - s.allocated)) = some reason

theorem charge_exceeded {q q' : DeliveryQuotaUsage} {records bytes positions : Int} {reason : DeliveryStopReason}
    (hFresh : q.summaryOnly = false ∧ q.stopReason = none) (h : q.charge records bytes positions = .ok q')
    (hReason : q'.stopReason = some reason) : q.exceeded records bytes positions = some reason := by
  replace h := past_guard h
  rw [hFresh.1, if_neg Bool.false_ne_true] at h
  split at h
  next other hExceeded =>
    rw [hExceeded]
    rw [← ok.inj h] at hReason
    exact hReason
  · rw [← ok.inj h] at hReason
    exact absurd (hFresh.2.symm.trans hReason) nofun

theorem retainNativeAppendBatch_stops {base metadata : Int} (hSrc : a.native.source input.stream = .ok s)
    (h : retainNativeAppendBatch rn a input s base metadata = .ok answer) :
    answer.1.native.stops = a.native.stops ∨ ∃ reason, input.Exceeds a reason ∧
      answer.1.native.stops = a.native.stops.modify input.stream (stopFor reason) := by
  obtain ⟨_, -, h⟩ := bind_ok h
  obtain ⟨counters, hCtrs, h⟩ := bind_ok h
  obtain ⟨nextPart, hPart, h⟩ := bind_ok h
  obtain ⟨nextAttempt, hAtt, h⟩ := bind_ok h
  split at h
  next =>
    obtain ⟨latched, hLatch, h⟩ := bind_ok h
    rw [← pure_ok h]
    unfold refuseNativeAppendOverBudget at hLatch
    split at hLatch
    · cases hLatch
    next reason hReason =>
      rw [← ok.inj hLatch]
      cases hWhole : nextAttempt.summaryOnly with
      | true => exact .inl rfl
      | false =>
        rw [hWhole] at hReason
        exact .inr ⟨reason, ⟨s, counters, hSrc, hCtrs, charge_exceeded ⟨rfl, rfl⟩ hPart hReason⟩,
          stops_modify a.native.participations input.stream fun _ => rfl⟩
  next =>
    obtain ⟨_, -, h⟩ := bind_ok h
    obtain ⟨_, -, h⟩ := bind_ok h
    obtain ⟨native, hNative, h⟩ := bind_ok h
    rw [← pure_ok h]
    exact .inl ((advanceNativeInterpretation_stops hNative).trans (stops_charge _ _ _ _ 0))

theorem executeNativeAppend_stops (h : executeNativeAppend rb rn a input = .ok answer) :
    answer.1.native.stops = a.native.stops ∨
      ∃ locked reason, lockNativeDelivery rb a input.stream input.guarded = .ok locked ∧
        input.Exceeds locked reason ∧
        answer.1.native.stops = a.native.stops.modify input.stream (stopFor reason) := by
  obtain ⟨locked, hLock, h⟩ := bind_ok h
  obtain ⟨s, hSrc, h⟩ := bind_ok h
  obtain ⟨_, -, h⟩ := bind_ok h
  obtain ⟨_, -, h⟩ := bind_ok h
  obtain ⟨middle, hMiddle, h⟩ := bind_ok h
  simp only [finishNativeAppend, bind_ok_iff, pure_ok_iff] at h
  obtain ⟨relocked, hRelock, _, -, _, -, native, hNative, rfl⟩ := h
  rw [advanceNativeInterpretation_stops hNative, lockNativeDelivery_stops hRelock, ← lockNativeDelivery_stops hLock]
  unfold answerNativeAppend at hMiddle
  split at hMiddle
  · obtain ⟨_, -, hMiddle⟩ := bind_ok hMiddle
    exact .inl (by rw [← pure_ok hMiddle])
  obtain ⟨_, -, hMiddle⟩ := bind_ok hMiddle
  obtain ⟨_, -, hMiddle⟩ := bind_ok hMiddle
  split at hMiddle
  · exact .inl (by rw [← pure_ok hMiddle])
  obtain ⟨base, -, hMiddle⟩ := bind_ok hMiddle
  obtain ⟨_, -, hMiddle⟩ := bind_ok hMiddle
  split at hMiddle
  · obtain ⟨latched, hLatch, hMiddle⟩ := bind_ok hMiddle
    exact .inl (by rw [← pure_ok hMiddle, latchDeliveryMetadata_stops hLatch])
  · cases hMiddle
  · refine (retainNativeAppendBatch_stops hSrc hMiddle).imp_right ?_
    rintro ⟨reason, hExceeds, hStops⟩
    exact ⟨locked, reason, hLock, hExceeds, hStops⟩

/-! ## Controls -/

theorem reserveNativeResetRecords_stops {resetBytes : Nat}
    (h : reserveNativeResetRecords rb a resetBytes = .ok a') : a'.native.stops = a.native.stops := by
  unfold reserveNativeResetRecords at h
  split at h
  · split at h
    · exact latchDeliveryMetadata_stops h
    · cases h
    · rw [← ok.inj h]
  · rw [ok.inj h]

theorem applyControlWatermark_browser {applied : Attempt α β × Bool}
    (hFamily : mark.family = .browser) (h : applyControlWatermark rb p a mark = .ok applied) :
    applied.1.native = a.native := by
  simp only [applyControlWatermark, hFamily] at h
  obtain ⟨_, -, h⟩ := bind_ok h
  rw [← pure_ok h]

/-- A control names each stream once, so it applies at most one Native watermark. -/
theorem applySecurityControlWatermarks_native {marks : List DeliveryWatermark}
    (hOnce : (marks.map fun mark => (mark.family, mark.source)).Nodup)
    (hStream : ∀ mark ∈ marks, mark.family = .native → mark.source = p)
    (h : applySecurityControlWatermarks rb p marks a = .ok a') :
    a'.native = a.native ∨ ∃ mark ∈ marks, mark.family = .native ∧ ∃ rejected,
      applyNativeControlWatermark a.native p mark = .ok (a'.native, rejected) := by
  induction marks generalizing a with
  | nil => exact .inl (by rw [ok.inj h])
  | cons mark rest ih =>
    obtain ⟨applied, hApp, h⟩ := bind_ok h
    obtain ⟨hFresh, hOnce⟩ := nodup_cons.mp hOnce
    obtain ⟨hHead, hStream⟩ := forall_mem_cons.mp hStream
    cases hFamily : mark.family with
    | browser =>
      rw [← applyControlWatermark_browser hFamily hApp]
      exact (ih hOnce hStream h).imp_right fun ⟨other, hOther, hNative⟩ => ⟨other, .tail mark hOther, hNative⟩
    | native =>
      have hBrowser : a'.native = applied.1.native := by
        refine (ih hOnce hStream h).resolve_right ?_
        rintro ⟨other, hOther, hNative, -⟩
        refine hFresh (mem_map.mpr ⟨other, hOther, ?_⟩)
        simp only [hFamily, hNative, hHead hFamily, hStream other hOther hNative]
      simp only [applyControlWatermark, hFamily] at hApp
      obtain ⟨answer, hAns, hApp⟩ := bind_ok hApp
      rw [hBrowser, ← pure_ok hApp]
      exact .inr ⟨mark, mem_cons_self, hFamily, answer.2, hAns⟩

/-- The watermark grows the stream within both limits, but the Attempt is summary-only already. -/
def SpuriousMark (f : FamilyState β) (p : Nat) (mark : DeliveryWatermark) : Prop :=
  f.attempt.summaryOnly = true ∧ mark.allocatedThrough ≤ positionLimitOf true false ∧
    ∃ s, f.source p = .ok s ∧ s.allocated < mark.allocatedThrough ∧
      mark.allocatedThrough - s.allocated ≤ positionLimitOf true true - f.attempt.positions

theorem applyNativeControlWatermark_stops
    {answer : FamilyState β × Bool} (h : applyNativeControlWatermark f p mark = .ok answer) :
    answer.1.stops = f.stops ∨ answer.1.stops = f.stops.modify p (stopFor .positions) ∧
      (positionLimitOf true false < mark.allocatedThrough ∨ SpuriousMark f p mark ∨
        ∃ c, f.counters p = .ok c ∧ c.summaryOnly = true) := by
  obtain ⟨s, hSrc, h⟩ := bind_ok h
  obtain ⟨c, hCtrs, h⟩ := bind_ok h
  dsimp only at h
  split_ifs at h with hBehind hRejected hWhole
  · exact .inl (by rw [← pure_ok h])
  · exact .inl (by rw [← pure_ok h]; rfl)
  · refine .inr ⟨by rw [← pure_ok h]; exact stops_modify f.participations p fun _ => rfl, ?_⟩
    simp only [Bool.or_eq_true, decide_eq_true_eq, FamilyState.summaryOnly, gt_iff_lt] at hRejected hWhole
    by_cases hOver : positionLimitOf true false < mark.allocatedThrough
    · exact .inl hOver
    rcases hRejected with (((hPart | hAtt) | hDelta) | hDelta)
    · exact .inr (.inr ⟨c, hCtrs, hPart⟩)
    · exact .inr (.inl ⟨hAtt, by omega, s, hSrc, by omega, by omega⟩)
    · omega
    · exact absurd hDelta hWhole
  · exact .inl (by rw [← pure_ok h]; exact stops_charge f.participations p 0 0 0)

theorem storeSecurityControl_stops (h : storeSecurityControl f p = .ok f') : f'.stops = f.stops := by
  obtain ⟨c, -, h⟩ := bind_ok h
  rw [← pure_ok h]
  split <;> split <;> rfl

/-- The control would latch its Participation for the sake of the Attempt. -/
def SecurityControl.Spurious (browserReading : Reading α) (control : SecurityControl) (a : Attempt α β) : Prop :=
  ∃ reserved, reserveNativeResetRecords browserReading a control.resetBytes = .ok reserved ∧
    ∃ mark ∈ control.watermarks, mark.family = .native ∧ SpuriousMark reserved.native control.participation mark

/-- The request asks for more positions than the Participation may have. -/
def SecurityControl.Exceeds (control : SecurityControl) : Prop :=
  ∃ mark ∈ control.watermarks, mark.family = .native ∧ positionLimitOf true false < mark.allocatedThrough

theorem changeParticipationControl_stops {control : SecurityControl}
    (h : changeParticipationControl rb a control = .ok a') : a'.native.stops = a.native.stops ∨
      a'.native.stops = a.native.stops.modify control.participation (stopFor .positions) ∧
      (control.Exceeds ∨ control.Spurious rb a ∨
        ∃ reason, a.native.stops[control.participation]? = some (true, reason)) := by
  simp only [changeParticipationControl, bind_ok_iff, pure_ok_iff, require_ok_iff, decide_eq_true_eq] at h
  obtain ⟨part, -, _, -, _, hOnce, _, hChecked, applied, hApp, rfl⟩ := h
  have hStream : ∀ mark ∈ control.watermarks, mark.family = .native → mark.source = control.participation := by
    intro mark hMark hFamily
    have hCheck := forM_ok hChecked mark hMark
    simp only [checkControlWatermark, hFamily, bind_ok_iff, require_ok_iff, decide_eq_true_eq] at hCheck
    obtain ⟨_, hSrc, -⟩ := hCheck
    exact hSrc
  have hRenewed : (applied.renewLease control.participation control.lease).native = applied.native := by
    unfold Attempt.renewLease
    split <;> rfl
  rw [hRenewed]
  unfold applySecurityControl at hApp
  split at hApp
  · exact .inl (by rw [ok.inj hApp])
  simp only [bind_ok_iff, pure_ok_iff] at hApp
  obtain ⟨reserved, hResv, marked, hMarked, native, hNative, rfl⟩ := hApp
  rw [storeSecurityControl_stops hNative, ← reserveNativeResetRecords_stops hResv]
  rcases applySecurityControlWatermarks_native hOnce hStream hMarked with
    hSame | ⟨mark, hMark, hFamily, rejected, hMark'⟩
  · exact .inl (by rw [hSame])
  refine (applyNativeControlWatermark_stops hMark').imp_right (And.imp_right ?_)
  rintro (hOver | hSpurious | ⟨c, hCtrs, hStop⟩)
  · exact .inl ⟨mark, hMark, hFamily, hOver⟩
  · exact .inr (.inl ⟨reserved, hResv, mark, hMark, hFamily, hSpurious⟩)
  refine .inr (.inr ⟨c.stopReason, ?_⟩)
  rw [FamilyState.stops, getElem?_map, found_ok_iff.mp hCtrs, Option.map_some,
    latch, hStop]

end Stops

/-! ## Runs -/

section Runs

variable {α β : Type} (browserReading : Reading α) (nativeReading : Reading β)

/-- The request goes beyond what the Participation itself may have. -/
def DeliveryOp.Exceeds (a : Attempt α β) (p : Nat) (reason : DeliveryStopReason) : DeliveryOp α β → Prop
  | .appendNative input => input.stream = p ∧ ∃ locked,
      lockNativeDelivery browserReading a p input.guarded = .ok locked ∧ input.Exceeds locked reason
  | .control input => input.participation = p ∧ reason = .positions ∧ input.Exceeds
  | _ => False

/-- The step latches a Participation only where its own room ends. -/
def DeliveryOp.Truthful (a : Attempt α β) (op : DeliveryOp α β) : Prop :=
  ∀ p reason, a.native.stops[p]? = some (false, none) →
    (op.step browserReading nativeReading a).native.stops[p]? = some (true, some reason) →
    op.Exceeds browserReading a p reason

def DeliveryOp.Honest (a : Attempt α β) : DeliveryOp α β → Prop
  | .appendNative _ => True
  | .control input => ¬input.Spurious browserReading a
  | _ => False

theorem modified_latch {stops : List (Bool × Option DeliveryStopReason)} {p q : Nat}
    {reason other : DeliveryStopReason} (hOpen : stops[q]? = some (false, none))
    (hLatch : (stops.modify p (stopFor reason))[q]? = some (true, some other)) : p = q ∧ other = reason := by
  rw [getElem?_modify, hOpen] at hLatch
  by_cases hq : p = q
  · simp only [hq, if_true, stopFor] at hLatch
    exact ⟨hq, by simpa using hLatch.symm⟩
  · simp [hq] at hLatch

theorem native_stops_are_truthful (a : Attempt α β) (ops : List (DeliveryOp α β)) (op : DeliveryOp α β)
    (hHonest : op.Honest browserReading (run browserReading nativeReading a ops)) :
    op.Truthful browserReading nativeReading (run browserReading nativeReading a ops) := by
  generalize run browserReading nativeReading a ops = a at hHonest ⊢
  intro p reason hOpen hStep
  have hMoved : ∃ answer, op.execute browserReading nativeReading a = .ok answer ∧
      answer.1.native.stops[p]? = some (true, some reason) := by
    unfold DeliveryOp.step at hStep
    split at hStep
    next answer hAns => exact ⟨answer, hAns, hStep⟩
    · rw [hOpen] at hStep
      cases hStep
  obtain ⟨answer, hAns, hLatch⟩ := hMoved
  cases op with
  | appendNative input =>
    rcases executeNativeAppend_stops hAns with hSame | ⟨locked, cause, hLock, hExceeds, hStops⟩
    · rw [hSame, hOpen] at hLatch
      cases hLatch
    rw [hStops] at hLatch
    obtain ⟨rfl, rfl⟩ := modified_latch hOpen hLatch
    exact ⟨rfl, locked, hLock, hExceeds⟩
  | control input =>
    obtain ⟨changed, hChg, hAns⟩ := bind_ok hAns
    rw [← pure_ok hAns] at hLatch
    rcases changeParticipationControl_stops hChg with hSame | ⟨hStops, hCause⟩
    · rw [hSame, hOpen] at hLatch
      cases hLatch
    rw [hStops] at hLatch
    obtain ⟨rfl, rfl⟩ := modified_latch hOpen hLatch
    rcases hCause with hExceeds | hSpurious | ⟨_, hStop⟩
    · exact ⟨rfl, rfl, hExceeds⟩
    · exact absurd hSpurious hHonest
    · rw [hOpen] at hStop
      cases hStop
  | _ => exact hHonest.elim

end Runs

def watermark (p : Nat) (allocated : Int) : DeliveryOp Unit Unit :=
  .control ⟨p, true, false, 0, [⟨.native, p, 0, allocated⟩], none⟩

/-- The first Participation asks for more than the Attempt has and ends, and then the second one, which
asks for one position, is latched for positions. -/
theorem attempt_latches_participation : ¬ (watermark 1 1).Truthful plainReading plainReading
      (run plainReading plainReading (.initial 0)
        [.connect 60000, watermark 0 80001, .endParticipation 0 .participationEnded 0, .connect 60000]) := by
  intro hTruthful
  obtain ⟨-, -, mark, hMark, -, hOver⟩ := hTruthful 1 .positions (by decide +kernel) (by decide +kernel)
  obtain rfl := mem_singleton.mp hMark
  revert hOver
  decide

theorem native_stops_are_truthful_over :
    let a := run plainReading plainReading (.initial 0) [.connect 60000]
    (watermark 0 20001).Honest plainReading a ∧
      a.native.stops[0]? = some (false, none) ∧
      ((watermark 0 20001).step plainReading plainReading a).native.stops[0]? = some (true, some .positions) ∧
      (watermark 0 20001).Exceeds plainReading a 0 .positions := by
  intro a
  have hHonest : (watermark 0 20001).Honest plainReading a := by
    rintro ⟨reserved, -, mark, hMark, -, -, hLimit, -⟩
    obtain rfl := mem_singleton.mp hMark
    revert hLimit
    decide
  have hOpen : a.native.stops[0]? = some (false, none) := by decide +kernel
  have hLatch : ((watermark 0 20001).step plainReading plainReading a).native.stops[0]? =
      some (true, some .positions) := by decide +kernel
  exact ⟨hHonest, hOpen, hLatch,
    native_stops_are_truthful plainReading plainReading (.initial 0) [.connect 60000] _ hHonest 0 .positions
      hOpen hLatch⟩

end Proctor.Delivery
