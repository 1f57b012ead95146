import Proctor.Delivery.NativeMoves

/-!
# Requests that charge the counters

Native batches, declarations of both families and control watermarks. A request
that is not accepted leaves every counter as it was.
-/

namespace Proctor.Delivery

open Ranges Ledger Fallible

section Replies

variable {α β : Type} {rb : Reading α} {a a' a'' : Attempt α β}

structure Replies (reading : Reading α) (a a' : Attempt α β) (outcome : Outcome) : Prop where
  reaches : Reaches reading a a'
  quiet : outcome ≠ .accepted → a'.usages = a.usages

theorem Rests.replies (h : Rests rb a a') (outcome : Outcome) : Replies rb a a' outcome :=
  ⟨h.toReaches, fun _ => h.usage⟩

theorem Reaches.accepted (h : Reaches rb a a') : Replies rb a a' .accepted :=
  ⟨h, fun hRefused => absurd rfl hRefused⟩

theorem Rests.then_replies {outcome : Outcome} (h : Rests rb a a')
    (h' : Replies rb a' a'' outcome) : Replies rb a a'' outcome :=
  ⟨h.toReaches.trans h'.reaches, fun hRefused => (h'.quiet hRefused).trans h.usage⟩

theorem Replies.then_rests {outcome : Outcome} (h : Replies rb a a' outcome)
    (h' : Rests rb a' a'') : Replies rb a a'' outcome :=
  ⟨h.reaches.trans h'.toReaches, fun hRefused => h'.usage.trans (h.quiet hRefused)⟩

end Replies

/-! ## Native batches -/

section NativeAppend

variable {β : Type} {reading : Reading β} {intervals : Int} {f f' : FamilyState β}
  {s : DeliverySource β} {input : NativeAppend β} {base : Int} {counters : ScopeCounters} {p : Nat}

theorem checkNativeAppendPosition_ok (hCheck : checkNativeAppendPosition s input = .ok base) :
    ∃ progress, s.progress = .ok progress ∧ base = progress.windowBase ∧
      base < input.sequence ∧ ¬ Covers s.gaps input.sequence ∧
      (s.isClosed → input.sequence ≤ s.closure.boundary) := by
  simp only [checkNativeAppendPosition, bind_ok_iff, persisted_ok_iff] at hCheck
  obtain ⟨progress, hProg, hCheck⟩ := hCheck
  split_ifs at hCheck with hAhead hSet hWin hBeyond
  cases hCheck
  simp only [Bool.or_eq_true, decide_eq_true_eq, not_or, List.any_eq_true,
    Bool.and_eq_true] at hSet
  simp only [Bool.or_eq_true, decide_eq_true_eq, not_or, not_le] at hWin
  simp only [Bool.and_eq_true, decide_eq_true_eq, not_and, not_lt, gt_iff_lt] at hBeyond
  exact ⟨progress, hProg, rfl, hWin.1, hSet.2, hBeyond⟩

theorem retainable_batch (hSound : s.lane.Sound) (hCheck : checkNativeAppendPosition s input = .ok base)
    (hFresh : ∀ row ∈ s.rows, row.sequence ≠ input.sequence) :
    Retainable s [input.row] (s.allocated + max 0 (input.sequence - s.allocated)) := by
  obtain ⟨progress, hProg, rfl, hAbove, hUndeclared, hBounded⟩ :=
    checkNativeAppendPosition_ok hCheck
  have hBase := (frontier_of_resolve hSound hProg).nonneg
  rw [← ((resolveDeliveryProgress_spec hProg).2).windowBase] at hBase
  have hRow : input.row.sequence = input.sequence := rfl
  exact
    { ascending := by simp
      unstored := by simpa [hRow] using hFresh
      undeclared := by
        simpa [hRow] using fun hMiss => hUndeclared ((covers_gaps hSound _).mpr hMiss)
      within := by
        simp only [List.mem_singleton, forall_eq, hRow]
        omega
      counted := by simp [NativeAppend.row]
      pending := by simp [NativeAppend.row]
      allocated_le := by omega
      bounded := fun b hb => by
        have hWithin : s.allocated ≤ b := hSound.bounded b hb
        simp only [DeliverySource.lane, DeliverySource.boundary] at hb
        split at hb
        next hClosed =>
          cases hb
          have := hBounded hClosed
          omega
        · cases hb }

theorem scopes_getElem?_native {scope : Scope}
    (hCtrs : f.participations[p]? = some counters) (hSrc : f.sources[p]? = some s)
    (hScope : (f.book true intervals).scopes[p]? = some scope) : scope = streamScope counters s := by
  simp only [FamilyState.book, FamilyState.scopes, if_true, List.getElem?_zipWith, hCtrs,
    hSrc, Option.some.injEq] at hScope
  exact hScope.symm

theorem native_admits {records bytes positions : Int}
    {nextPart nextAttempt : DeliveryQuotaUsage} (hCtrs : f.participations[p]? = some counters)
    (hSrc : f.sources[p]? = some s) (hOpen : f.summaryOnly counters = false)
    (hPart : (nativeQuotas s counters f.attempt).1.charge records bytes positions = .ok nextPart)
    (hAtt : (nativeQuotas s counters f.attempt).2.charge records bytes positions = .ok nextAttempt)
    (hColl : ¬ (nextPart.summaryOnly || nextAttempt.summaryOnly)) :
    (f.book true intervals).Admits (deliveryLimits true) p (records, bytes, positions) := by
  simp only [Bool.or_eq_true, not_or, Bool.not_eq_true] at hColl
  simp only [FamilyState.summaryOnly, Bool.or_eq_false_iff] at hOpen
  obtain ⟨-, -, -, -, hRecs, hBytes, hPos, -⟩ :=
    DeliveryQuotaUsage.charge_fits hPart hColl.1
  obtain ⟨-, -, -, -, hRecs', hBytes', hPos', -⟩ :=
    DeliveryQuotaUsage.charge_fits hAtt hColl.2
  refine ⟨fun scope hScope => ?_, hOpen.2, hRecs', hBytes', hPos'⟩
  obtain rfl := scopes_getElem?_native hCtrs hSrc hScope
  exact ⟨hOpen.1, hRecs, hBytes, hPos⟩

theorem chargeOwner_putSource (f : FamilyState β) (p : Nat) (s s' : DeliverySource β)
    (records bytes positions pending pending' : Int) :
    { (f.chargeOwner p s records bytes positions pending).putSource p s' with
      pending := pending' } = f.chargeOwner p s' records bytes positions pending' := by
  simp [FamilyState.chargeOwner, FamilyState.putSource, FamilyState.chargeStream]

theorem getElem?_chargeOwner (hSrc : f.sources[p]? = some s) (s' : DeliverySource β)
    (records bytes positions pending : Int) :
    (f.chargeOwner p s' records bytes positions pending).sources[p]? = some s' := by
  have hBound := (List.getElem?_eq_some_iff.mp hSrc).1
  simp [FamilyState.chargeOwner, FamilyState.putSource, FamilyState.chargeStream, hBound]

theorem insertBatch_moves (hGood : f.Good true intervals) (hSrc : f.sources[input.stream]? = some s)
    (hCheck : checkNativeAppendPosition s input = .ok base)
    (hFresh : ∀ row ∈ s.rows, row.sequence ≠ input.sequence)
    (hAdmits : (f.book true intervals).Admits (deliveryLimits true) s.lane.scope
      (input.records, input.bytes, max 0 (input.sequence - s.allocated)))
    (hRepair : input.sequence ≠ base + 1 →
      f.pending + input.bytes ≤ deliveryPendingByteLimit - deliveryRepairReservationBytes)
    (hAdv : advanceNativeInterpretation reading
      (f.insertBatch s input (max 0 (input.sequence - s.allocated))) input.stream = .ok f') :
    Moves true intervals intervals f f' ∧ KeepsOpen f f' := by
  have hSound := hGood.lane hSrc
  have hRetain := retainable_batch hSound hCheck hFresh
  obtain ⟨before, hBefore, rfl, -⟩ := checkNativeAppendPosition_ok hCheck
  generalize hDelta : max 0 (input.sequence - s.allocated) = delta at *
  have hIns : f.insertBatch s input delta = f.chargeOwner input.stream
      (s.retain [input.row] (s.allocated + delta) s.seen) input.records input.bytes delta
      (f.pending + input.bytes) := rfl
  have hStored := getElem?_chargeOwner hSrc
    (s.retain [input.row] (s.allocated + delta) s.seen) input.records input.bytes delta
    (f.pending + input.bytes)
  rw [hIns] at hAdv
  obtain ⟨s₁, progress, rows, hSrc₁, hProg, hRows, rfl⟩ :=
    advanceNativeInterpretation_ok hAdv
  cases hStored.symm.trans hSrc₁
  have hFront := frontier_of_resolve (hRetain.sound hSound s.seen) hProg
  have hRecs : recordsOf (entriesOf [input.row]) = input.records := by
    simp [recordsOf, entriesOf, NativeAppend.row]
  have hBytes : bytesOf (entriesOf [input.row]) = input.bytes := by
    simp [bytesOf, entriesOf, NativeAppend.row]
  have hPend := hRetain.pending_eq hRows progress.highestContiguous f.pending
  have hPos : s.allocated + delta - s.allocated = delta := by omega
  rw [hBytes] at hPend
  rw [chargeOwner_putSource]
  have hCounted : (f.chargeOwner input.stream (s.retain [input.row] (s.allocated + delta) s.seen)
      input.records input.bytes delta (f.pending + input.bytes)).pending =
      f.pending + input.bytes := rfl
  rw [hCounted, hPend]
  have hCharged : Charged true intervals f s _ _ 0 :=
    hRetain.charged hRows progress.highestContiguous hSound hFront
      ((hGood.seen hSrc).trans hRetain.allocated_le) (by rwa [hRecs, hBytes, hPos]) (by
        by_cases hHead : input.sequence = before.windowBase + 1
        · refine .inl ?_
          have hBase := frontier_of_resolve hSound hBefore
          rw [((resolveDeliveryProgress_spec hBefore).2).windowBase] at hHead
          simp only [List.mem_singleton, forall_eq]
          refine hFront.le_of_below fun k hLow hHigh => ?_
          by_cases hSet : k ≤ before.settledThrough
          · exact covered_retain (hBase.below k hLow hSet)
          refine Or.inl ⟨input.row.toEntry, ?_, ?_⟩
          · exact (Retainable.perm s _ _ _).mem_iff.mpr (by simp [entriesOf])
          have hRow : input.row.sequence = input.sequence := rfl
          omega
        · exact .inr (hBytes ▸ hRepair hHead))
  rw [hPos] at hCharged
  have hMoves := hCharged.moves_owner hGood.regular hSrc rfl
  rw [add_zero] at hMoves
  exact ⟨hMoves, keepsOpen_of_sources hSrc rfl rfl⟩

end NativeAppend

section NativeReplies

variable {α β : Type} {rb : Reading α} {rn : Reading β} {a a' : Attempt α β}
  {s : DeliverySource β} {input : NativeAppend β} {answer : Attempt α β × Outcome} {p : Nat}
  {counters : ScopeCounters}

theorem refuseNativeAppendOverBudget_quiet {f f' : FamilyState β} {intervals : Int}
    {nextPart nextAttempt : DeliveryQuotaUsage}
    (hRefuse : refuseNativeAppendOverBudget f p nextPart nextAttempt = .ok f') :
    Quiet true intervals f f' ∧ KeepsOpen f f' := by
  simp only [refuseNativeAppendOverBudget] at hRefuse
  split at hRefuse
  · cases hRefuse
  · cases hRefuse
    exact latchNativeDelivery_quiet _ _

section

variable (hGood : a.Good) (hSrc : a.native.sources[input.stream]? = some s)
include hGood hSrc

theorem retainNativeAppendBatch_replies {base metadata : Int}
    (hCheck : checkNativeAppendPosition s input = .ok base)
    (hFresh : ∀ row ∈ s.rows, row.sequence ≠ input.sequence)
    (hCtrs : a.native.counters input.stream = .ok counters)
    (hOpen : a.native.summaryOnly counters = false)
    (hRetain : retainNativeAppendBatch rn a input s base metadata = .ok answer) :
    Replies rb a answer.1 answer.2 := by
  simp only [retainNativeAppendBatch, hCtrs] at hRetain
  obtain ⟨-, -, hRetain⟩ := bind_ok hRetain
  obtain ⟨same, hSame, hRetain⟩ := bind_ok hRetain
  cases hSame
  obtain ⟨nextPart, hPart, hRetain⟩ := bind_ok hRetain
  obtain ⟨nextAttempt, hAtt, hRetain⟩ := bind_ok hRetain
  split_ifs at hRetain with hStop
  · obtain ⟨latched, hLatch, rfl⟩ := bind_pure_ok hRetain
    exact (Quiet.rests_native hGood (refuseNativeAppendOverBudget_quiet hLatch)).replies _
  obtain ⟨_, hPend, hRetain⟩ := bind_ok hRetain
  obtain ⟨-, -, hRetain⟩ := bind_ok hRetain
  obtain ⟨native, hAdv, rfl⟩ := bind_pure_ok hRetain
  have hOwner : s.lane.scope = input.stream := hGood.native.regular.owner rfl _ s hSrc
  have hAdmits : (a.native.book true a.intervals).Admits (deliveryLimits true) input.stream _ :=
    native_admits (found_ok_iff.mp hCtrs) hSrc hOpen hPart hAtt hStop
  have hMoves := insertBatch_moves hGood.native hSrc hCheck hFresh (hOwner.symm ▸ hAdmits)
    (fun hAhead => by
      simp only [require_ok_iff, Bool.and_eq_true, hAhead, decide_false] at hPend
      exact canRetainPendingDelivery_within hPend.1) hAdv
  exact (hMoves.1.reaches_native hGood hMoves.2 metadata).accepted

theorem admitNativeAppend_replies (hFresh : ∀ row ∈ s.rows, row.sequence ≠ input.sequence)
    (hCtrs : a.native.counters input.stream = .ok counters)
    (hOpen : a.native.summaryOnly counters = false)
    (hAdmit : admitNativeAppend rb rn a input s = .ok answer) : Replies rb a answer.1 answer.2 := by
  obtain ⟨base, hCheck, hAdmit⟩ := bind_ok hAdmit
  obtain ⟨-, -, hAdmit⟩ := bind_ok hAdmit
  split at hAdmit
  · obtain ⟨latched, hLatch, rfl⟩ := bind_pure_ok hAdmit
    exact (latchDeliveryMetadata_rests hGood hLatch).replies _
  · cases hAdmit
  · exact retainNativeAppendBatch_replies hGood hSrc hCheck hFresh hCtrs hOpen hAdmit

theorem answerNativeAppend_replies (hAns : answerNativeAppend rb rn a input s = .ok answer) :
    Replies rb a answer.1 answer.2 := by
  simp only [answerNativeAppend] at hAns
  split at hAns
  · obtain ⟨-, -, rfl⟩ := bind_pure_ok hAns
    exact (Rests.refl hGood).replies _
  next hNone =>
    obtain ⟨-, -, hAns⟩ := bind_ok hAns
    obtain ⟨counters, hCtrs, hAns⟩ := bind_ok hAns
    split_ifs at hAns with hStop
    · obtain rfl := pure_ok hAns
      exact (Rests.refl hGood).replies _
    exact admitNativeAppend_replies hGood hSrc
      (fun row hRow => by simpa using List.find?_eq_none.mp hNone row hRow) hCtrs
      (by simpa using hStop) hAns

end

theorem advanceNativeInterpretation_rests {native : FamilyState β} (hGood : a.Good)
    (hAdv : advanceNativeInterpretation rn a.native p = .ok native) :
    Rests rb a { a with native := native } :=
  Quiet.rests_native hGood (advanceNativeInterpretation_quiet hGood.native hAdv)

theorem finishNativeAppend_rests {guarded : Bool} {outcome : Outcome} (hGood : a.Good)
    (hFinish : finishNativeAppend rb rn a p guarded outcome = .ok answer) :
    Rests rb a answer.1 ∧ answer.2 = outcome := by
  simp only [finishNativeAppend, bind_ok_iff, pure_ok_iff] at hFinish
  obtain ⟨locked, hLock, s, -, -, -, native, hAdv, rfl⟩ := hFinish
  have hLocked := lockNativeDelivery_rests hGood hLock
  exact ⟨hLocked.trans (advanceNativeInterpretation_rests hLocked.good hAdv), rfl⟩

theorem executeNativeAppend_replies (hGood : a.Good)
    (hAppend : executeNativeAppend rb rn a input = .ok answer) : Replies rb a answer.1 answer.2 := by
  simp only [executeNativeAppend, bind_ok_iff] at hAppend
  obtain ⟨locked, hLock, s, hSrc, -, -, -, -, reply, hReply, hFinish⟩ := hAppend
  have hLocked := lockNativeDelivery_rests hGood hLock
  have hReplies := answerNativeAppend_replies hLocked.good (found_ok_iff.mp hSrc) hReply
  obtain ⟨hFinished, hOut⟩ := finishNativeAppend_rests hReplies.reaches.good hFinish
  rw [hOut]
  exact hLocked.then_replies (hReplies.then_rests hFinished)

end NativeReplies

end Proctor.Delivery
