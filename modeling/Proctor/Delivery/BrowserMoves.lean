import Proctor.Delivery.Settlement

/-!
# The moves of the Browser family

Settlement, close and the latch are quiet. An append is a retaining step of one
lane: the events that settle the head of the window are interpreted in the same
transaction, so only events beyond it leave bytes pending.
-/

namespace Proctor.Delivery

open Ranges Ledger Fallible

section Settlement

variable {α : Type} {reading : Reading α} {now : Instant} {intervals : Int} {f f' : FamilyState α}
  {j : Nat} {native : Bool} {s : DeliverySource α}

theorem quiet_mark (hSrc : f.sources[j]? = some s)
    (integrity : IntegrityLedger) (facts : Bool × Bool) :
    Quiet native intervals f (FamilyState.mark { f with integrity := integrity } j s facts) := by
  have hQuiet : Quiet native intervals f (f.putSource j { s with
      settlementPending := facts.1, settlementIncomplete := facts.2 }) :=
    quiet_same hSrc rfl rfl
  refine ⟨⟨hQuiet.changes, fun hRegular => ?_, rfl, rfl⟩, hQuiet.usage⟩
  have hKept := hQuiet.regular hRegular
  exact ⟨hKept.seen, hKept.streams, hKept.owner⟩

theorem StatusOf.quiet {state : DeliverySource α × BrowserSourceStatus}
    (h : StatusOf now s state) (hSrc : f.sources[j]? = some s) :
    Quiet false intervals f (f.putSource j state.1) := by
  obtain ⟨hAlloc, hSeen, hRows, -⟩ := h.fixed
  obtain hLane | hLane := h.lane
  · exact quiet_same hSrc hLane hSeen
  · exact quiet_rebound hSrc (hLane ▸ .terminate) hAlloc hSeen hRows

theorem quiet_settleAt (contiguous : Int)
    {rows : List (Row α)} {n : Int} (hGood : f.Good native intervals) (hSrc : f.sources[j]? = some s)
    (hFront : IsFrontier s.lane.Covered n)
    (hRows : entriesOf rows = (entriesOf s.rows).map (Entry.interpretThrough n)) :
    Quiet native intervals f { f.putSource j (s.settleAt rows contiguous n) with
      pending := f.pending - releasedBy n (entriesOf s.rows) } := by
  have hLane : (s.settleAt rows contiguous n).lane = _ := settleAt_lane hRows
  have hSet : pendingOf (s.settleAt rows contiguous n).lane.entries =
      pendingOf s.lane.entries - releasedBy n s.lane.entries := by
    rw [hLane]
    exact pendingOf_interpretThrough n _
  have hReleased : 0 ≤ releasedBy n s.lane.entries :=
    releasedBy_nonneg (hGood.lane hSrc).bytes_nonneg
  have hStep : s.lane.Step 0 0 (s.settleAt rows contiguous n).lane := by
    rw [hLane]
    exact .settle n hFront
  have hQuiet : Quiet native intervals f _ :=
    quiet_putSource hSrc hStep rfl id (by rw [hSet]; omega)
  have hPend : f.pending + (pendingOf (s.settleAt rows contiguous n).lane.entries -
      pendingOf s.lane.entries) = f.pending - releasedBy n (entriesOf s.rows) := by
    rw [hSet]
    simp only [DeliverySource.lane]
    omega
  rwa [hPend] at hQuiet

namespace Settles

variable {state : DeliverySource α × BrowserSourceStatus} {rows : List (Row α)}
  {integrity : IntegrityLedger} {facts : Bool × Bool}

section

variable (h : Settles reading now f j f' s state rows integrity facts)
include h

theorem entries : entriesOf rows =
      (entriesOf s.rows).map (Entry.interpretThrough state.2.progress.settledThrough) := by
  simpa using advanceRows_entries h.advance

theorem marks :
    Quiet false intervals { f.putSource j (state.1.settleAt rows state.2.progress.highestContiguous
        state.2.progress.settledThrough) with
      pending := f.pending - releasedBy state.2.progress.settledThrough (entriesOf s.rows) } f' := by
  have hSrc := getElem?_putSource (f := { f with
      pending := f.pending - releasedBy state.2.progress.settledThrough (entriesOf s.rows) })
    h.source (state.1.settleAt rows state.2.progress.highestContiguous state.2.progress.settledThrough)
  have hMark : Quiet false intervals _ _ := quiet_mark hSrc integrity facts
  rw [h.result]
  simpa [FamilyState.mark, FamilyState.putSource] using hMark

theorem quiet (hGood : f.Good false intervals) : Quiet false intervals f f' := by
  have hStored : Quiet false intervals f (f.putSource j state.1) := h.status.quiet h.source
  have hGood' := hStored.good hGood
  have hSrc' := getElem?_putSource h.source state.1
  have hFront := frontier_of_resolve (hGood'.lane hSrc') h.status.progress
  have hRows := h.entries
  have hMarks : Quiet false intervals _ f' := h.marks
  rw [← h.status.fixed.2.2.1] at hRows hMarks
  have hSet := quiet_settleAt state.2.progress.highestContiguous hGood' hSrc' hFront hRows
  rw [putSource_putSource] at hSet
  exact hStored.trans (hSet.trans hMarks)

end

end Settles

theorem FamilyState.Good.settles (hGood : f.Good false intervals)
    (hSettle : settleBrowserSource reading now f j = .ok f') :
    ∃ s state rows integrity facts, Settles reading now f j f' s state rows integrity facts :=
  settleBrowserSource_ok hSettle (fun _ hs => (hGood.lane hs).bytes_nonneg) fun _ hs => hGood.seen hs

structure BrowserQuiet (reading : Reading α) (intervals : Int) (f f' : FamilyState α) : Prop
    extends Quiet false intervals f f' where
  reviews : Reviews reading f f'

namespace BrowserQuiet

theorem refl (f : FamilyState α) : BrowserQuiet reading intervals f f :=
  ⟨Quiet.refl f, .refl⟩

theorem trans {f'' : FamilyState α} (h : BrowserQuiet reading intervals f f')
    (h' : BrowserQuiet reading intervals f' f'') : BrowserQuiet reading intervals f f'' :=
  ⟨h.toQuiet.trans h'.toQuiet, h.reviews.trans h'.reviews⟩

theorem of_foldlM {ι : Type} {step : FamilyState α → ι → Except Fault (FamilyState α)}
    (hStep : ∀ (f f' : FamilyState α) (i : ι), f.Good false intervals → step f i = .ok f' →
      BrowserQuiet reading intervals f f')
    {ids : List ι} (hGood : f.Good false intervals) (hFold : ids.foldlM step f = .ok f') :
    BrowserQuiet reading intervals f f' :=
  foldlM_rel refl (fun _ _ _ => trans) (fun _ _ h => h.toMoves.good) hStep hGood hFold

end BrowserQuiet

theorem settle_edited {g : FamilyState α}
    (hSettle : settleBrowserSource reading now g j = .ok f') (hGood : g.Good false intervals)
    (hEdited : Edited j f g) : Quiet false intervals g f' ∧ Reviews reading f f' := by
  obtain ⟨s, state, rows, integrity, facts, hSet⟩ := hGood.settles hSettle
  have hStored : Quiet false intervals g (g.putSource j state.1) :=
    hSet.status.quiet hSet.source
  have hSound := (hStored.good hGood).lane (getElem?_putSource hSet.source state.1)
  exact ⟨hSet.quiet hGood, .single (.settle hEdited hSet hSound)⟩

section

variable (hGood : f.Good false intervals)
include hGood

theorem settle_quiet_edit {g : FamilyState α}
    (hQuiet : Quiet false intervals f g) (hEdited : Edited j f g)
    (hSettle : settleBrowserSource reading now g j = .ok f') : BrowserQuiet reading intervals f f' := by
  obtain ⟨hSet, hRev⟩ := settle_edited hSettle (hQuiet.good hGood) hEdited
  exact ⟨hQuiet.trans hSet, hRev⟩

theorem settleBrowserSource_quiet
    (hSettle : settleBrowserSource reading now f j = .ok f') : BrowserQuiet reading intervals f f' :=
  settle_quiet_edit hGood (Quiet.refl f) (Edited.refl j f) hSettle

/-! ## Close, latch and lock -/

theorem settleBrowserSources_quiet {ids : List Nat}
    (hSettle : settleBrowserSources reading now f ids = .ok f') : BrowserQuiet reading intervals f f' :=
  BrowserQuiet.of_foldlM (fun _ _ _ => settleBrowserSource_quiet) hGood hSettle

theorem settleExhaustedBrowserSources_quiet {part : Option Nat}
    (hSettle : settleExhaustedBrowserSources reading now f part = .ok f') :
    BrowserQuiet reading intervals f f' := by
  simp only [settleExhaustedBrowserSources, bind_ok_iff] at hSettle
  obtain ⟨-, -, hSettle⟩ := hSettle
  have hTerminate : BrowserQuiet reading intervals f (f.terminate fun s =>
      part.all fun p => s.participation = p) := ⟨quiet_terminate _, (kept_terminate f _).reviews⟩
  exact hTerminate.trans (settleBrowserSources_quiet (hTerminate.good hGood) hSettle)

end

theorem stopAttempt_quiet (reason : DeliveryStopReason) :
    BrowserQuiet reading intervals f (f.stopAttempt reason) :=
  ⟨quiet_stopAttempt reason, Relation.ReflTransGen.single (.keep (kept_of_sources rfl rfl rfl rfl))⟩

theorem latchBrowserDelivery_quiet {p : Nat} {reason : DeliveryStopReason} {attemptScope : Bool}
    (hGood : f.Good false intervals)
    (hLatch : latchBrowserDelivery reading now f p reason attemptScope = .ok f') :
    BrowserQuiet reading intervals f f' := by
  simp only [latchBrowserDelivery] at hLatch
  split at hLatch
  · have hStop : BrowserQuiet reading intervals f (f.stopAttempt reason) := stopAttempt_quiet reason
    exact hStop.trans (settleExhaustedBrowserSources_quiet (hStop.good hGood) hLatch)
  have hStop : BrowserQuiet reading intervals f (f.stopParticipation p reason) :=
    ⟨quiet_stopParticipation p reason, Relation.ReflTransGen.single (.keep (kept_of_sources rfl rfl rfl rfl))⟩
  exact hStop.trans (settleExhaustedBrowserSources_quiet (hStop.good hGood) hLatch)

variable {reason : DeliveryCloseReason} {instant : Instant}

theorem lane_of_close {s : DeliverySource α} (s' : DeliverySource α) {retirement : Option Instant}
    (hClose : s.closure.close native reason s.allocated instant retirement = .ok s'.closure)
    (hSame : s'.lane = { s.lane with boundary := s'.boundary }) :
    s'.lane = s.lane ∨ s.lane.Step 0 0 s'.lane := by
  obtain ⟨hClosed, ⟨hEarlier, hKept⟩ | ⟨hOpen, hBdry⟩⟩ := DeliveryClosure.close_ok hClose
  · refine Or.inl (hSame.trans ?_)
    simp only [DeliverySource.boundary, DeliverySource.isClosed, hKept, DeliverySource.lane]
    rfl
  refine Or.inr ?_
  have hBound : s'.boundary = some s.allocated := by
    simp [DeliverySource.boundary, DeliverySource.isClosed, hClosed, hBdry]
  rw [hSame, hBound]
  refine .close s.allocated ?_ le_rfl
  simp [DeliverySource.lane, DeliverySource.boundary, DeliverySource.isClosed, hOpen]

variable {parts : List Participation}

variable (hGood : f.Good false intervals)
include hGood

theorem closeBrowserSource_quiet
    (hClose : closeBrowserSource reading now parts f j reason instant = .ok f') :
    BrowserQuiet reading intervals f f' := by
  simp only [closeBrowserSource, bind_ok_iff, FamilyState.source, found_ok_iff] at hClose
  obtain ⟨s, hSrc, p, -, -, -, closure, hClosure, hSettle⟩ := hClose
  have hMax : max s.allocated s.seen = s.allocated := max_eq_left (hGood.seen hSrc)
  rw [hMax] at hClosure hSettle
  have hQuiet : Quiet false intervals f (f.putSource j { s with
      closure := closure, endedAt := closure.closedAt, allocated := s.allocated }) := by
    obtain hLane | hStep := lane_of_close { s with
      closure := closure, endedAt := closure.closedAt, allocated := s.allocated } hClosure rfl
    · exact quiet_same hSrc hLane rfl
    · exact quiet_rebound hSrc hStep rfl rfl rfl
  exact settle_quiet_edit hGood hQuiet (edited_same hSrc rfl rfl) hSettle

theorem closeBrowserSources_quiet {ids : List Nat}
    (hClose : closeBrowserSources reading now parts f ids reason instant = .ok f') :
    BrowserQuiet reading intervals f f' :=
  BrowserQuiet.of_foldlM (fun _ _ _ => closeBrowserSource_quiet) hGood hClose

theorem settleSubmissionBrowserSources_quiet
    (hSettle : settleSubmissionBrowserSources reading now parts f reason = .ok f') :
    BrowserQuiet reading intervals f f' := by
  obtain ⟨-, -, hFold⟩ := bind_ok hSettle
  refine BrowserQuiet.of_foldlM (fun g g' i hg hStep => ?_) hGood hFold
  obtain ⟨closed, hClose, hStep⟩ := bind_ok hStep
  have hQuiet := closeBrowserSource_quiet hg hClose
  exact hQuiet.trans (settleBrowserSource_quiet (hQuiet.good hg) hStep)

theorem lockBrowserDelivery_quiet {guarded : Bool}
    (hLock : lockBrowserDelivery reading now parts f j guarded = .ok f') :
    BrowserQuiet reading intervals f f' := by
  simp only [lockBrowserDelivery, bind_ok_iff] at hLock
  obtain ⟨-, -, s, hSrc, p, hPart, -, -, hLock⟩ := hLock
  split_ifs at hLock
  · cases hLock
    exact BrowserQuiet.refl f
  · exact closeBrowserSource_quiet hGood hLock
  · obtain ⟨-, -, rfl⟩ := bind_pure_ok hLock
    exact BrowserQuiet.refl f

end Settlement

end Proctor.Delivery
