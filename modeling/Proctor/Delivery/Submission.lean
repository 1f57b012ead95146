import Proctor.Delivery.Retirement

/-!
# The settlement of a Submission

The two flags of a source are read off its status. That neither is set means full
receipt: the positions through the boundary that the client declared are all
stored, and nothing beside them was allocated. The state of a Submission counts
the flags, and every settlement counts them anew. A retirement deletes the sources
and leaves the state as it is.
-/

namespace Proctor.Delivery

open Ranges Ledger Fallible List DeliveryClosure
open Bool (and_eq_true not_eq_true')

/-! ## Complete sources -/

section Complete

variable {α : Type}

/-- Every position through a final sequence that the client declared was received. -/
def Delivered (closure : DeliveryClosure) (rows : List (Row α)) : Prop :=
  ∃ n, closure.closedAt.isSome = true ∧ closure.finalSequence = some n ∧
    closure.finalBoundaryOrigin = some .clientDeclared ∧
    ∀ k, 1 ≤ k → k ≤ n → ∃ row ∈ rows, row.sequence = k

def NothingUnretained (summary : Option UnretainedDeliverySummary) : Prop :=
  ∀ report ∈ summary, report.unretainedRecordCount = 0 ∧ report.countComplete = true

structure SourceView.Complete (reading : Reading α) (v : SourceView α) : Prop where
  delivered : Delivered v.closure v.rows
  retained : NothingUnretained v.summary
  resolved : ∀ row ∈ v.rows, row.interpreted = true ∧ reading.unresolved row.payload = false

theorem DeliveryClosure.known_tail {c : DeliveryClosure} (hValid : c.validate false)
    (hTail : c.unknownTail = false) : (c.finalSequence = none ∧ c.uploadExpiresAt = none) ∨
      (c.closedAt.isSome ∧ ∃ n, c.finalSequence = some n ∧
        c.finalBoundaryOrigin = some .clientDeclared) := by
  simp only [validate] at hValid
  split at hValid
  next hOpen =>
    simp only [and_eq_true, Option.isNone_iff_eq_none] at hValid
    exact .inl ⟨hValid.1.1.1.1.2, hValid.2⟩
  next closedAt hClosed =>
    refine .inr ⟨by simp [hClosed], ?_⟩
    split at hValid
    · rw [and_eq_true] at hValid
      replace hValid := hValid.2
      split at hValid
      · simp [hTail] at hValid
      next final hFinal =>
        rw [and_eq_true] at hValid
        replace hValid := hValid.2
        split at hValid
        next hOrig => exact ⟨final, hFinal, hOrig⟩
        · simp [hTail] at hValid
        · cases hValid
    · cases hValid

theorem DeliveryClosure.tail_known {c : DeliveryClosure} (hValid : c.validate false)
    (hOrig : c.finalBoundaryOrigin = some .clientDeclared) : c.unknownTail = false := by
  simp only [validate, hOrig] at hValid
  split at hValid
  · simp at hValid
  split at hValid
  · rw [and_eq_true] at hValid
    replace hValid := hValid.2
    split at hValid
    · simp at hValid
    · simp only [and_eq_true, not_eq_true'] at hValid
      exact hValid.2.1
  · cases hValid

theorem delivered_expire {c c' : DeliveryClosure} {instant : Instant} {rows : List (Row α)}
    (hExpire : c.expire false instant = .ok c') : Delivered c' rows ↔ Delivered c rows := by
  simp only [expire] at hExpire
  split_ifs at hExpire with hInvalid hOpen hFinal
  · rw [Except.ok.inj hExpire]
  · rw [Except.ok.inj hExpire]
  cases hExpire
  have hNone : c.finalSequence = none := by simpa using hFinal
  constructor
  · rintro ⟨n, -, -, hOrig, -⟩
    cases hOrig
  rintro ⟨n, -, hDecl, -⟩
  rw [hNone] at hDecl
  cases hDecl

theorem delivered_congr {closure : DeliveryClosure} {rows rows' : List (Row α)}
    (hRows : (entriesOf rows').map Entry.sequence = (entriesOf rows).map Entry.sequence) :
    Delivered closure rows' ↔ Delivered closure rows := by
  have hMem : ∀ k, (∃ row ∈ rows', row.sequence = k) ↔ ∃ row ∈ rows, row.sequence = k := by
    intro k
    simpa [entriesOf] using (congrArg (k ∈ ·) hRows)
  simp only [Delivered, hMem]

end Complete

/-! ## The flags of a source -/

section Flags

variable {α : Type} {reading : Reading α} {now : Instant} {s : DeliverySource α}
  {state : DeliverySource α × BrowserSourceStatus}

theorem StatusOf.delivered (h : StatusOf now s state) :
    Delivered state.1.closure state.1.rows ↔ Delivered s.closure s.rows := by
  obtain hSame | ⟨-, closure, hExpire, hSame⟩ := h.stored
  · rw [hSame]
  · rw [hSame]
    exact delivered_expire hExpire

theorem StatusOf.reached (h : StatusOf now s state) (hSound : state.1.lane.Sound) {n : Int}
    (hClosed : state.1.closure.closedAt.isSome)
    (hFinal : state.1.closure.finalSequence = some n) : state.1.allocated ≤ n ∧
      ((∀ k, 1 ≤ k → k ≤ n → ∃ row ∈ state.1.rows, row.sequence = k) ↔
        n ≤ state.2.progress.highestContiguous) := by
  have hBdry : state.1.lane.boundary = some n := by
    simp [DeliverySource.lane, DeliverySource.boundary, DeliverySource.isClosed, hClosed,
      boundary, hFinal]
  have hContiguous := (resolveDeliveryProgress_spec h.progress).2.contiguous
  have hRecv : ∀ k, Covers state.1.received k ↔ ∃ row ∈ state.1.rows, row.sequence = k := by
    intro k
    rw [covers_received hSound]
    simp [Lane.Received, DeliverySource.lane, entriesOf]
  refine ⟨hSound.bounded n hBdry, fun hAll => ?_, fun hReach k hLow hHigh => ?_⟩
  · exact hContiguous.le_of_below fun k hLow hHigh => (hRecv k).mpr (hAll k hLow hHigh)
  · exact (hRecv k).mp (hContiguous.below k hLow (hHigh.trans hReach))

theorem BrowserSourceStatus.validate_bounds {v : BrowserSourceStatus} (hValid : v.validate) :
    v.closure.validate false ∧ v.progress.settledThrough ≤ v.allocated ∧
      v.terminal ≤ v.allocated ∧ v.summary.all UnretainedDeliverySummary.validate ∧
      (v.allocated ≤ v.progress.settledThrough → v.progress.missing = []) := by
  simp only [BrowserSourceStatus.validate, and_eq_true, not_eq_true',
    decide_eq_false_iff_not, not_lt, gt_iff_lt] at hValid
  obtain ⟨⟨⟨⟨⟨⟨⟨⟨⟨⟨⟨-, -⟩, -⟩, -⟩, hSet⟩, -⟩, -⟩, hTerm⟩, hRanges⟩, hMiss⟩, hClosure⟩,
    hSummary⟩ := hValid
  refine ⟨hClosure, hSet, hTerm, hSummary, fun hReach => ?_⟩
  refine eq_nil_iff_forall_not_mem.mpr fun r hr => ?_
  have hProper := ((validateSequenceRanges_iff _ _).mp hRanges).2.1.proper r hr
  have hWithin := all_eq_true.mp hMiss r hr
  simp only [and_eq_true, not_eq_true', decide_eq_false_iff_not, not_le,
    not_lt] at hWithin
  omega

theorem nothingUnretained_iff {summary : Option UnretainedDeliverySummary}
    (hValid : summary.all UnretainedDeliverySummary.validate) :
    summary.any (fun report => report.unretainedRecordCount > 0 || !report.countComplete) = false ↔
      NothingUnretained summary := by
  cases summary with
  | none => simp [NothingUnretained]
  | some report =>
    have hCount : 0 ≤ report.unretainedRecordCount := by
      simp only [Option.all_some, UnretainedDeliverySummary.validate, and_eq_true,
        securitySafeInt_iff] at hValid
      exact hValid.1.1.2.1
    simp only [NothingUnretained, Option.any_some, Bool.or_eq_false_iff, decide_eq_false_iff_not,
      Bool.not_eq_false', Option.mem_some_iff, forall_eq', not_lt, gt_iff_lt]
    exact and_congr_left fun _ => by omega

/-- A source is neither pending nor incomplete exactly when it was delivered in full,
nothing was reported unretained, and no provenance is unresolved. -/
theorem settlementFacts_iff (h : StatusOf now s state) (hSound : state.1.lane.Sound)
    (unresolved : Bool) : browserSourceSettlementFacts state.2 unresolved = .ok (false, false) ↔
      Delivered s.closure s.rows ∧ NothingUnretained s.summary ∧ unresolved = false := by
  obtain ⟨hClosure, hSet, hTerm, hSummary, hMiss⟩ :=
    BrowserSourceStatus.validate_bounds h.valid
  have hOrder := (resolveDeliveryProgress_spec h.progress).2.contiguous_le
  rw [h.closure] at hClosure
  rw [h.summary] at hSummary
  rw [h.allocated, ← h.fixed.1] at hSet hTerm hMiss
  rw [← h.delivered]
  simp only [browserSourceSettlementFacts, h.valid, h.closure, h.summary, h.serverTime,
    Bool.not_true, Bool.false_eq_true, if_false, Except.ok.injEq, Prod.mk.injEq,
    Bool.or_eq_false_iff, decide_eq_false_iff_not, not_lt, gt_iff_lt]
  constructor
  · rintro ⟨hPend, ⟨⟨⟨⟨hEqual, hTail⟩, hRes⟩, hTerminated⟩, hRet⟩, hReach⟩
    refine ⟨?_, (nothingUnretained_iff hSummary).mp hRet, hRes⟩
    obtain ⟨hNone, hOpen⟩ | ⟨hClosed, n, hFinal, hOrig⟩ := known_tail hClosure hTail
    · simp [hNone, hOpen] at hPend
    refine ⟨n, hClosed, hFinal, hOrig, (h.reached hSound hClosed hFinal).2.mpr ?_⟩
    rw [hPend, hFinal] at hReach
    simpa using hReach
  · rintro ⟨⟨n, hClosed, hFinal, hOrig, hAll⟩, hRet, hRes⟩
    obtain ⟨hAlloc, hReach⟩ := h.reached hSound hClosed hFinal
    have hReach := hReach.mp hAll
    have hEmpty : state.2.progress.missing = [] := hMiss (by omega)
    refine ⟨by simp [hFinal, hEmpty], ⟨⟨⟨⟨by omega, tail_known hClosure hOrig⟩, hRes⟩,
      by omega⟩, (nothingUnretained_iff hSummary).mpr hRet⟩, ?_⟩
    simp only [hFinal, Option.any_some, Bool.and_eq_false_iff, decide_eq_false_iff_not, not_lt]
    exact .inr hReach

end Flags

/-! ## Reviewed sources -/

section Reviewed

variable {α : Type} {reading : Reading α}

structure SourceView.Reviewed (reading : Reading α) (v : SourceView α) : Prop where
  flags : (v.settlementPending = false ∧ v.settlementIncomplete = false) ↔ v.Complete reading
  interpreted : Delivered v.closure v.rows → ∀ row ∈ v.rows, row.interpreted = true

structure FamilyState.Reviewed (reading : Reading α) (f : FamilyState α) : Prop where
  sources : ∀ v ∈ f.views, v.Reviewed reading
  settlement : f.retired = false → f.settlement = BrowserSubmissionSettlement.of f.sources

theorem unresolvedProvenance_eq_false_iff {rows : List (Row α)}
    (hInterpreted : ∀ row ∈ rows, row.interpreted) : unresolvedProvenance reading rows = false ↔
      ∀ row ∈ rows, row.interpreted ∧ reading.unresolved row.payload = false := by
  simp only [unresolvedProvenance, any_eq_false, and_eq_true, not_and, Bool.not_eq_true]
  exact forall₂_congr fun row hRow => by simp [hInterpreted row hRow]

variable {now : Instant} {f f' g : FamilyState α} {j : Nat} {s : DeliverySource α}
  {state : DeliverySource α × BrowserSourceStatus} {rows : List (Row α)}
  {integrity : IntegrityLedger} {facts : Bool × Bool}

namespace Settles

section

variable (h : Settles reading now g j f' s state rows integrity facts)
include h

theorem delivered : Delivered state.1.closure rows ↔ Delivered s.closure s.rows := by
  rw [← h.status.delivered, h.status.fixed.2.2.1]
  refine delivered_congr ?_
  rw [h.entries, map_map]
  refine map_congr_left fun e _ => ?_
  simp

theorem interprets (hSound : state.1.lane.Sound) (hDelivered : Delivered state.1.closure rows) :
    ∀ row ∈ rows, row.interpreted := by
  obtain ⟨n, hClosed, hFinal, -, hAll⟩ := h.status.delivered.mpr (h.delivered.mp hDelivered)
  obtain ⟨hAlloc, hReach⟩ := h.status.reached hSound hClosed hFinal
  have hContiguous := hReach.mp hAll
  have hOrder := (resolveDeliveryProgress_spec h.status.progress).2.contiguous_le
  intro row hRow
  have hEntry : row.toEntry ∈ (entriesOf s.rows).map
      (Entry.interpretThrough state.2.progress.settledThrough) := by
    rw [← h.entries]
    exact mem_map_of_mem hRow
  obtain ⟨e, he, hSame⟩ := mem_map.mp hEntry
  have hWithin : e.sequence ≤ state.1.allocated := by
    rw [← h.status.fixed.2.2.1] at he
    exact (hSound.received_within e he).2
  rw [← hSame]
  have hBelow : e.sequence ≤ state.2.progress.settledThrough := by omega
  simp [Entry.interpretThrough, hBelow]

theorem reviewed (hSound : state.1.lane.Sound) : (settledView state rows facts).Reviewed reading := by
  have hSummary : (settledView state rows facts).summary = s.summary := by
    simp only [settledView]
    obtain hSame | ⟨-, closure, -, hSame⟩ := h.status.stored <;> rw [hSame]
  have hFacts : (facts.1 = false ∧ facts.2 = false) ↔
      Delivered s.closure s.rows ∧ NothingUnretained s.summary ∧
        unresolvedProvenance reading rows = false := by
    rw [← settlementFacts_iff h.status hSound, h.review, Except.ok.injEq, Prod.ext_iff]
  refine ⟨hFacts.trans ?_, h.interprets hSound⟩
  rw [← h.delivered]
  constructor
  · rintro ⟨hDelivered, hRet, hRes⟩
    exact ⟨hDelivered, hSummary.symm ▸ hRet,
      (unresolvedProvenance_eq_false_iff (h.interprets hSound hDelivered)).mp hRes⟩
  · rintro ⟨hDelivered, hRet, hRes⟩
    exact ⟨hDelivered, hSummary ▸ hRet,
      (unresolvedProvenance_eq_false_iff fun row hRow => (hRes row hRow).1).mpr hRes⟩

end

end Settles

theorem settlement_of_views {sources sources' : List (DeliverySource α)}
    (hViews : sources'.map DeliverySource.view = sources.map DeliverySource.view) :
    BrowserSubmissionSettlement.of sources' = BrowserSubmissionSettlement.of sources := by
  have hLen : sources'.length = sources.length := by
    simpa using congrArg List.length hViews
  have hCount : ∀ flag : SourceView α → Bool,
      sources'.countP (flag ∘ DeliverySource.view) = sources.countP (flag ∘ DeliverySource.view) :=
    fun flag => by simpa using congrArg (List.countP flag) hViews
  have hPend := hCount SourceView.settlementPending
  have hIncomplete := hCount SourceView.settlementIncomplete
  simp only [Function.comp_def, DeliverySource.view] at hPend hIncomplete
  simp only [BrowserSubmissionSettlement.of, hLen, hPend, hIncomplete]

theorem Review.reviewed (hReview : Review reading f f') (h : f.Reviewed reading) :
    f'.Reviewed reading := by
  cases hReview with
  | keep hKept =>
    refine ⟨by rw [hKept.views]; exact h.sources, fun hActive => ?_⟩
    rw [hKept.settlement, h.settlement (hKept.retired ▸ hActive)]
    exact (settlement_of_views hKept.views).symm
  | settle hEdited hSet hSound =>
    refine ⟨fun v hv => ?_, fun _ => by rw [hSet.result]; rfl⟩
    rw [hSet.views] at hv
    obtain ⟨i, hi⟩ := mem_iff_getElem?.mp hv
    rw [getElem?_set] at hi
    split at hi
    · split at hi
      · cases hi
        exact hSet.reviewed hSound
      · cases hi
    next hOther =>
      rw [hEdited.others i (Ne.symm hOther)] at hi
      exact h.sources v (mem_of_getElem? hi)

theorem Reviews.reviewed (hRev : Reviews reading f f') (h : f.Reviewed reading) :
    f'.Reviewed reading := by
  induction hRev with
  | refl => exact h
  | tail _ hLast ih => exact hLast.reviewed ih

theorem expectedState_settled_iff (sources : List (DeliverySource α)) :
    (BrowserSubmissionSettlement.of sources).state = .settled ↔ sources ≠ [] ∧
      ∀ s ∈ sources, s.settlementPending = false ∧ s.settlementIncomplete = false := by
  simp only [BrowserSubmissionSettlement.of, BrowserSubmissionSettlement.expectedState]
  split_ifs with hEmpty hPend hIncomplete
  · simp [length_eq_zero_iff.mp hEmpty]
  · obtain ⟨s, hs, hFlag⟩ := countP_pos_iff.mp hPend
    exact iff_of_false nofun fun hAll => by simp [(hAll.2 s hs).1] at hFlag
  · obtain ⟨s, hs, hFlag⟩ := countP_pos_iff.mp hIncomplete
    exact iff_of_false nofun fun hAll => by simp [(hAll.2 s hs).2] at hFlag
  · refine iff_of_true rfl ⟨fun hNil => hEmpty (by simp [hNil]), fun s hs => ⟨?_, ?_⟩⟩
    · exact Bool.eq_false_iff.mpr fun hFlag => hPend (countP_pos_iff.mpr ⟨s, hs, hFlag⟩)
    · exact Bool.eq_false_iff.mpr fun hFlag => hIncomplete (countP_pos_iff.mpr ⟨s, hs, hFlag⟩)

end Reviewed

/-! ## Runs -/

section Runs

variable {α β : Type}

theorem FamilyState.empty_reviewed (reading : Reading α) :
    (FamilyState.empty : FamilyState α).Reviewed reading where
  sources := by simp [FamilyState.views, FamilyState.empty]
  settlement _ := by
    simp [FamilyState.empty, BrowserSubmissionSettlement.of, BrowserSubmissionSettlement.expectedState]

/-- A source that is neither pending nor incomplete was delivered in full, and until the Browser
activity is retired the Submission is settled exactly when there are sources and all are complete. -/
structure Attempt.SettlementSound (reading : Reading α) (a : Attempt α β) : Prop where
  facts : ∀ s ∈ a.browser.sources, ∀ (summaryOnly : Bool)
      (state : DeliverySource α × BrowserSourceStatus),
    browserSourceState a.now summaryOnly s = .ok state →
      (browserSourceSettlementFacts state.2 (unresolvedProvenance reading s.rows) =
        .ok (false, false) ↔ s.view.Complete reading)
  state : a.browser.retired = false → (a.browser.settlement.state = .settled ↔
    a.browser.sources ≠ [] ∧ ∀ s ∈ a.browser.sources, s.view.Complete reading)

variable {rb : Reading α} {rn : Reading β} {a a' : Attempt α β}

theorem retireSubmissionBrowserActivity_reviewed {instant : Instant}
    (hRetire : retireSubmissionBrowserActivity rb a instant = .ok a') : a'.browser.Reviewed rb := by
  simp only [retireSubmissionBrowserActivity, bind_ok_iff, pure_ok_iff] at hRetire
  obtain ⟨-, -, -, -, reviewed, -, rfl⟩ := hRetire
  exact ⟨by simp [FamilyState.views], by simp⟩

theorem retireSubmissionSecurityOperational_browser (hRetire : retireSubmissionSecurityOperational a = .ok a') :
    a'.browser = a.browser := by
  simp only [retireSubmissionSecurityOperational, bind_ok_iff, pure_ok_iff] at hRetire
  obtain ⟨-, -, rfl⟩ := hRetire
  rfl

theorem AttemptOp.step_reviewed (hGood : a.Good) (h : a.browser.Reviewed rb) (op : AttemptOp α β) :
    (op.step rb rn a).browser.Reviewed rb := by
  unfold AttemptOp.step
  split
  next answer hExec =>
    cases op with
    | deliver op => exact Reviews.reviewed (op.execute_replies hGood hExec).reaches.reviews h
    | retireBrowser instant => exact retireSubmissionBrowserActivity_reviewed (accepted_ok hExec).1
    | retireSecurity => rwa [retireSubmissionSecurityOperational_browser (accepted_ok hExec).1]
  · exact h

theorem Attempt.afterAll_reviewed (browserReading : Reading α) (nativeReading : Reading β) (start : Instant)
    (ops : List (AttemptOp α β)) :
    (Attempt.afterAll browserReading nativeReading start ops).browser.Reviewed browserReading := by
  have hRun : ∀ a : Attempt α β, a.Good → a.browser.Reviewed browserReading →
      (ops.foldl (AttemptOp.step browserReading nativeReading) a).browser.Reviewed browserReading := by
    induction ops with
    | nil => exact fun a _ h => h
    | cons op rest ih => exact fun a hGood h => ih _ (op.step_good hGood) (op.step_reviewed hGood h)
  exact hRun _ (Attempt.initial_good start) (FamilyState.empty_reviewed browserReading)

theorem afterAll_settlementSound (browserReading : Reading α) (nativeReading : Reading β)
    (start : Instant) (ops : List (AttemptOp α β)) :
    (Attempt.afterAll browserReading nativeReading start ops).SettlementSound browserReading := by
  have hGood := Attempt.afterAll_good browserReading nativeReading start ops
  have hReviewed := Attempt.afterAll_reviewed browserReading nativeReading start ops
  generalize Attempt.afterAll browserReading nativeReading start ops = a at hGood hReviewed ⊢
  have hSrc : ∀ s ∈ a.browser.sources, s.view.Reviewed browserReading :=
    fun s hs => hReviewed.sources s.view (mem_map_of_mem hs)
  constructor
  · intro s hs summaryOnly state hState
    obtain ⟨j, hj⟩ := mem_iff_getElem?.mp hs
    have hStat := browserSourceState_spec hState (hGood.browser.seen hj)
    have hStored : Quiet false a.intervals a.browser (a.browser.putSource j state.1) :=
      hStat.quiet hj
    have hSound := (hStored.good hGood.browser).lane (getElem?_putSource hj state.1)
    rw [settlementFacts_iff hStat hSound]
    constructor
    · rintro ⟨hDelivered, hRet, hRes⟩
      exact ⟨hDelivered, hRet, (unresolvedProvenance_eq_false_iff
        ((hSrc s hs).interpreted hDelivered)).mp hRes⟩
    · rintro ⟨hDelivered, hRet, hRes⟩
      exact ⟨hDelivered, hRet, (unresolvedProvenance_eq_false_iff
        fun row hRow => (hRes row hRow).1).mpr hRes⟩
  · intro hActive
    rw [hReviewed.settlement hActive, expectedState_settled_iff]
    exact and_congr_right fun _ => forall₂_congr fun s hs => (hSrc s hs).flags

/-- A Browser source opened, closed by the Submission, declared final with nothing allocated, and retired. -/
def settledThenRetired : List (AttemptOp Unit Unit) :=
  [.deliver (.connect 60000), .deliver (.startBrowser ⟨0, true, false, .initial⟩),
    .deliver (.settleSubmission .submission),
    .deliver (.declareBrowser ⟨0, true, [], .final ⟨"final-1", 0, 0⟩, 100⟩), .retireBrowser 2000]

/-- Retirement deletes the sources of a settled Submission, which stays settled. -/
theorem retired_stays_settled :
    let a := Attempt.afterAll plainReading plainReading 1000 settledThenRetired
    a.browser.retired = true ∧ a.browser.settlement.state = .settled ∧ a.browser.sources = [] := by
  decide +kernel

end Runs

end Proctor.Delivery
