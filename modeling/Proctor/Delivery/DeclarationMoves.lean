import Proctor.Delivery.Requests

/-!
# Declarations as steps of the ledger

A placed declaration is one step of its lane. It charges only the positions it
adds, and the ranges it declares count against the Attempt as a whole, so the
other family observes them.
-/

namespace Proctor.Delivery

open Ranges Ledger Fallible List FamilyState DeliverySource

/-! ## Placement -/

section Placement

variable {α : Type} {native : Bool} {now : Instant} {progress : DeliveryProgress}
  {allocated revision : Int} {closure : DeliveryClosure} {summaryOnly : Bool}
  {received gaps : List SequenceRange}

theorem not_covers_of_overlapsAny {r : SequenceRange} {set : List SequenceRange}
    (hApart : overlapsAny r set = false) {n : Int} (hHolds : r.Holds n) : ¬ Covers set n := by
  rintro ⟨prior, hPrior, hLow, hHigh⟩
  have hNone := any_eq_false.mp hApart prior hPrior
  simp only [Bool.and_eq_true, decide_eq_true_eq, not_and, not_le] at hNone
  have hFirst := hHolds.1
  have hLast := hHolds.2
  omega

structure GapPlacement (allocated : Int) (closure : DeliveryClosure) (summaryOnly : Bool)
    (received gaps : List SequenceRange) (request : DeclareDeliveryGaps) : Prop where
  separated : Separated request.ranges
  within : ∀ r ∈ request.ranges, 1 ≤ r.first ∧ r.last ≤ request.allocatedThroughSequence
  collecting : summaryOnly = true → request.allocatedThroughSequence ≤ allocated
  bounded : closure.closedAt.isSome → request.allocatedThroughSequence ≤ closure.boundary
  unreceived : ∀ r ∈ request.ranges, overlapsAny r received = false
  undeclared : ∀ r ∈ request.ranges, overlapsAny r gaps = false

theorem DeclareDeliveryGaps.validate_ranges {request : DeclareDeliveryGaps}
    (hValid : request.validate) : Separated request.ranges ∧
      ∀ r ∈ request.ranges, 1 ≤ r.first ∧ r.last ≤ request.allocatedThroughSequence := by
  simp only [DeclareDeliveryGaps.validate, Bool.and_eq_true] at hValid
  obtain ⟨⟨⟨-, hRanges⟩, hLast⟩, -⟩ := hValid
  obtain ⟨-, hSep, hWithin⟩ := (validateSequenceRanges_iff _ _).mp hRanges
  have hBeyond : beyond request.ranges request.allocatedThroughSequence = false := by
    unfold beyond
    cases hEnd : request.ranges.getLast? with
    | none => rfl
    | some r => simpa [hEnd] using hLast
  have hHigh := (beyond_eq_false_iff hSep.ordered _).mp hBeyond
  exact ⟨hSep, fun r hr => ⟨(hWithin r hr).1, hHigh r hr⟩⟩

theorem validateDeliveryGapPlacement_ok {request : DeclareDeliveryGaps} {u : Unit}
    (hPlace : validateDeliveryGapPlacement native progress allocated revision closure summaryOnly
      request received gaps now = .ok u) :
    GapPlacement allocated closure summaryOnly received gaps request := by
  simp only [validateDeliveryGapPlacement] at hPlace
  split_ifs at hPlace with hInvalid hStale hExp hBeyond hOverlap
  simp only [Bool.or_eq_true, Bool.not_eq_true', not_or, Bool.not_eq_false] at hInvalid
  simp only [Bool.or_eq_true, not_or, Bool.and_eq_true, not_and, decide_eq_true_eq, not_lt,
    gt_iff_lt] at hStale
  simp only [Bool.and_eq_true, decide_eq_true_eq, not_and, not_lt, gt_iff_lt] at hBeyond
  obtain ⟨hSep, hWithin⟩ := DeclareDeliveryGaps.validate_ranges hInvalid.1.1.1.1
  have hApart : ∀ r ∈ request.ranges, overlapsAny r received = false ∧ overlapsAny r gaps = false := by
    intro r hr
    have hNone : ¬ _ := any_eq_false.mp (Bool.eq_false_iff.mpr hOverlap) r hr
    simp only [Bool.or_eq_true, not_or, Bool.not_eq_true] at hNone
    exact ⟨hNone.1.2, hNone.2⟩
  exact ⟨hSep, hWithin, hStale.2, hBeyond, fun r hr => (hApart r hr).1,
    fun r hr => (hApart r hr).2⟩

structure DeclarationStep (s s' : DeliverySource α) (summaryOnly : Bool) (ranges : Nat) : Prop where
  step : s.lane.Step (0, 0, s'.allocated - s.allocated) ranges s'.lane
  collecting : summaryOnly = true → s'.allocated = s.allocated
  closed : s'.isClosed = s.isClosed
  rows : s'.rows = s.rows
  seen : s'.seen = s.seen

variable {s : DeliverySource α} {request : DeclarationRequest} {placed : DeliveryClosure × Int}

theorem GapPlacement.step {gapRequest : DeclareDeliveryGaps} (hSound : s.lane.Sound)
    (h : GapPlacement s.allocated s.closure summaryOnly s.received s.gaps gapRequest)
    (hDecl : request.declaration = .gaps gapRequest) (settledThrough : Int) : DeclarationStep s
      (s.declare request s.closure (max s.allocated gapRequest.allocatedThroughSequence)
        settledThrough) summaryOnly request.declaration.ranges.length := by
  refine ⟨?_, fun hStop => max_eq_left (h.collecting hStop), rfl, rfl, rfl⟩
  have hRanges : request.declaration.ranges = gapRequest.ranges := by rw [hDecl]; rfl
  have hLane : (s.declare request s.closure (max s.allocated gapRequest.allocatedThroughSequence)
      settledThrough).lane = { s.lane with
        allocated := max s.allocated gapRequest.allocatedThroughSequence
        gaps := s.lane.gaps ++ gapRequest.ranges } := by
    simp only [lane, declare, declaredRanges,
      flatMap_append, flatMap_singleton, hRanges]
    rfl
  rw [hLane, hRanges]
  refine .declare gapRequest.ranges _ (le_max_left _ _) (fun b hb => ?_) h.separated
    (fun r hr => ⟨(h.within r hr).1, (h.within r hr).2.trans (le_max_right _ _)⟩) ?_ ?_
  · have hWithin : s.allocated ≤ b := hSound.bounded b hb
    simp only [lane, boundary] at hb
    split at hb
    next hClosed =>
      cases hb
      exact max_le hWithin (h.bounded hClosed)
    · cases hb
  · rintro n ⟨r, hr, hHolds⟩ hRecv
    exact not_covers_of_overlapsAny (h.unreceived r hr) hHolds ((covers_received hSound n).mpr hRecv)
  · intro r hr g hg
    -- A common position would be covered by the merged gaps, which the range avoids.
    by_contra hMeet
    simp only [Range.Disjoint, not_or, not_lt] at hMeet
    have hProper := h.separated.proper r hr
    have hGap := hSound.gaps_proper g hg
    refine not_covers_of_overlapsAny (h.undeclared r hr) (n := max r.first g.first) ?_
      ((covers_gaps hSound _).mpr ⟨g, hg, ?_⟩)
    · exact ⟨le_max_left _ _, max_le hProper hMeet.1⟩
    · exact ⟨le_max_right _ _, max_le hMeet.2 hGap⟩

theorem declareFinal_step {finalRequest : FinalDeliveryDeclaration}
    (hDeclare : s.closure.declareFinal native revision s.allocated summaryOnly finalRequest now =
      .ok placed) (hDecl : request.declaration = .final finalRequest) (settledThrough : Int) :
    DeclarationStep s (s.declare request placed.1 (s.allocated + placed.2) settledThrough)
      summaryOnly request.declaration.ranges.length := by
  obtain ⟨hClosed, hClosedAt, hBdry, hFinal, hDelta, hStop⟩ :=
    DeliveryClosure.declareFinal_ok hDeclare
  have hAlloc : s.allocated + placed.2 = finalRequest.finalSequence := by omega
  rw [hAlloc]
  refine ⟨?_, hStop, by simp only [isClosed, declare, hClosedAt],
    rfl, rfl⟩
  have hRanges : request.declaration.ranges = [] := by rw [hDecl]; rfl
  have hLane : (s.declare request placed.1 finalRequest.finalSequence settledThrough).lane =
      { s.lane with
        boundary := some finalRequest.finalSequence
        allocated := finalRequest.finalSequence } := by
    simp only [lane, declare, declaredRanges,
      flatMap_append, flatMap_singleton, hRanges, append_nil,
      boundary, isClosed, hClosedAt, hBdry, hClosed, if_true]
  rw [hLane, hRanges]
  refine .finalise _ ?_ hFinal
  simp [lane, boundary, isClosed, hClosed]

theorem placeDeclaration_step (hSound : s.lane.Sound)
    (hPlace : placeDeclaration native now progress s.allocated revision s.closure summaryOnly
      s.received s.gaps request.declaration = .ok placed) (settledThrough : Int) :
    DeclarationStep s (s.declare request placed.1 placed.2 settledThrough) summaryOnly
      request.declaration.ranges.length := by
  cases hDecl : request.declaration with
  | gaps gapRequest =>
    simp only [hDecl, placeDeclaration, bind_ok_iff, pure_ok_iff] at hPlace
    obtain ⟨u, hValid, rfl⟩ := hPlace
    have hStep := (validateDeliveryGapPlacement_ok hValid).step hSound hDecl settledThrough
    rwa [hDecl] at hStep
  | final finalRequest =>
    simp only [hDecl, placeDeclaration, bind_ok_iff, pure_ok_iff] at hPlace
    obtain ⟨declared, hDeclare, rfl⟩ := hPlace
    have hStep := declareFinal_step hDeclare hDecl settledThrough
    rwa [hDecl] at hStep

end Placement

/-! ## Charges of positions alone -/

section Positions

variable {α : Type} {f : FamilyState α} {intervals : Int} {positions : Int} {counters : ScopeCounters}

theorem usage_add_positions {usage limit : Usage} (hWithin : usage ≤ limit)
    (hRoom : usage.2.2 + positions ≤ limit.2.2) : usage + (0, 0, positions) ≤ limit := by
  obtain ⟨hRecs, hBytes, -⟩ := hWithin
  refine ⟨?_, ?_, hRoom⟩
  · simpa using hRecs
  · simpa using hBytes

theorem admits_positions {native : Bool} {p : Nat} {held : Int}
    (hSound : (f.book native intervals).Sound (deliveryLimits native))
    (hScope : ∀ scope, (f.book native intervals).scopes[p]? = some scope →
      scope = ⟨(counters.records, counters.bytes, held), counters.summaryOnly⟩)
    (hOpen : f.summaryOnly counters = false) (hPart : positions ≤ positionLimitOf native false - held)
    (hWhole : positions ≤ positionLimitOf native true - f.attempt.positions) :
    (f.book native intervals).Admits (deliveryLimits native) p (0, 0, positions) := by
  simp only [summaryOnly, Bool.or_eq_false_iff] at hOpen
  refine ⟨fun scope hMem => ?_, hOpen.2, usage_add_positions hSound.whole_within ?_⟩
  · have hWithin := hSound.scope_within scope (mem_of_getElem? hMem)
    obtain rfl := hScope scope hMem
    refine ⟨hOpen.1, usage_add_positions hWithin ?_⟩
    simp only [deliveryLimits]
    omega
  · simp only [book, ScopeCounters.scope, deliveryLimits]
    omega

theorem DeclarationStep.charged {native : Bool} {s s' : DeliverySource α} {summaryOnly : Bool}
    {ranges : Nat} (h : DeclarationStep s s' summaryOnly ranges) (hSeen : s.seen ≤ s.allocated)
    (hAdmits : summaryOnly = false → (f.book native intervals).Admits (deliveryLimits native)
      s.lane.scope (0, 0, s'.allocated - s.allocated))
    (hRanges : ranges = 0 ∨ intervals + ranges ≤ deliveryMissingIntervalLimit) :
    Charged native intervals f s s' (0, 0, s'.allocated - s.allocated) ranges where
  step := h.step
  admits := by
    cases hStop : summaryOnly with
    | true =>
      refine .inl ?_
      rw [h.collecting hStop, sub_self]
      rfl
    | false => exact .inr (hAdmits hStop)
  pending := .inl (by simp [lane, h.rows])
  ranges := hRanges.imp Int.natCast_eq_zero.mpr id
  seen := by
    have hAlloc : s.allocated ≤ s'.allocated := h.step.allocated_le
    rw [h.seen]
    omega

theorem exceedsIntervals_false {request : DeclarationRequest}
    (hFits : ¬ exceedsIntervals intervals request) : request.declaration.ranges.length = 0 ∨
      intervals + request.declaration.ranges.length ≤ deliveryMissingIntervalLimit := by
  cases hDecl : request.declaration with
  | gaps gapRequest =>
    simp only [exceedsIntervals, hDecl, Declaration.isGaps, Bool.true_and, decide_eq_true_eq,
      not_lt, gt_iff_lt] at hFits
    exact .inr (by omega)
  | final finalRequest => exact .inl rfl

end Positions

/-! ## Both families -/

section Attempts

variable {α β : Type} {rb : Reading α} {rn : Reading β} {a a' : Attempt α β}
  {request : DeclarationRequest} {answer : Attempt α β × Outcome} {n : Int}
  {placed : DeliveryClosure × Int} {s : DeliverySource α} {summaryOnly : Bool}

theorem observes {γ : Type} {native : Bool} {f : FamilyState γ} {i : Int} (hGood : f.Good native i)
    (hNonneg : 0 ≤ n) (hFits : n = 0 ∨ i + n ≤ deliveryMissingIntervalLimit) :
    Moves native i (i + n) f f where
  changes := by
    refine .single (.observe (i + n) ?_ ?_)
    · simp only [book]
      omega
    have hLimit := hGood.sound.intervals_le
    simp only [book, deliveryLimits] at hLimit ⊢
    omega
  regular := id
  participations := rfl
  retired := rfl

variable (hGood : a.Good)
include hGood

section

variable (hSrc : a.browser.sources[request.source]? = some s)
include hSrc

theorem storeBrowserDeclaration_replies {status : BrowserSourceStatus}
    {ranges : List SequenceRange × List SequenceRange}
    (hAlloc : status.allocated = s.allocated) (hStep : ∀ settledThrough, DeclarationStep s
      (s.declare request placed.1 placed.2 settledThrough) summaryOnly
      request.declaration.ranges.length)
    (hAdmits : summaryOnly = false → (a.browser.book false a.intervals).Admits (deliveryLimits false)
      s.lane.scope (0, 0, placed.2 - s.allocated))
    (hFits : ¬ exceedsIntervals a.intervals request)
    (hStore : storeBrowserDeclaration rb a request s status ranges placed = .ok answer) :
    Replies rb a answer.1 answer.2 := by
  simp only [storeBrowserDeclaration, hAlloc] at hStore
  obtain ⟨prospective, -, hStore⟩ := bind_ok hStore
  split at hStore
  · obtain ⟨latched, hLatch, rfl⟩ := bind_pure_ok hStore
    exact (latchDeliveryMetadata_rests hGood hLatch).replies _
  · cases hStore
  obtain ⟨settled, hSettle, rfl⟩ := bind_pure_ok hStore
  have hRanges := exceedsIntervals_false hFits
  have hDecl := hStep prospective.settledThrough
  have hMoves := (hDecl.charged (hGood.browser.seen hSrc) hAdmits hRanges).moves_source hSrc
  simp only [lane, hDecl.rows, sub_self, add_zero] at hMoves
  obtain ⟨hQuiet, hRev⟩ := settle_edited hSettle (hMoves.good hGood.browser)
    (edited_charge hSrc (by rfl) (by rfl) _ _ _ _)
  have hObserves := observes hGood.native (Int.natCast_nonneg _)
    (hRanges.imp Int.natCast_eq_zero.mpr id)
  exact (reaches_of_moves hGood (hMoves.trans hQuiet.toMoves) hObserves hRev (KeepsOpen.refl _)
    _).accepted

theorem declareBrowserPositions_replies
    {state : DeliverySource α × BrowserSourceStatus} (hStat : StatusOf a.now s state)
    (hUndue : state.1 = s) (hDecl : declareBrowserPositions rb a request s state.2 = .ok answer) :
    Replies rb a answer.1 answer.2 := by
  simp only [declareBrowserPositions, hStat.allocated, hStat.closure, hUndue] at hDecl
  obtain ⟨ranges, hRanges, hDecl⟩ := bind_ok hDecl
  obtain rfl := browserDeliveryRanges_ok hRanges
  obtain ⟨progress, -, hDecl⟩ := bind_ok hDecl
  obtain ⟨counters, hCtrs, hDecl⟩ := bind_ok hDecl
  obtain ⟨placed, hPlace, hDecl⟩ := bind_ok hDecl
  split_ifs at hDecl with hLimit hIntervals
  · obtain ⟨latched, hLatch, rfl⟩ := bind_pure_ok hDecl
    exact (BrowserQuiet.rests hGood (latchBrowserDelivery_quiet hGood.browser hLatch)).replies _
  · obtain ⟨latched, hLatch, rfl⟩ := bind_pure_ok hDecl
    exact (latchDeliveryMetadata_rests hGood hLatch).replies _
  · simp only [Bool.or_eq_true, decide_eq_true_eq, not_or, not_lt, gt_iff_lt] at hLimit
    exact storeBrowserDeclaration_replies hGood hSrc hStat.allocated
      (placeDeclaration_step (hGood.browser.lane hSrc) hPlace)
      (fun hOpen => admits_positions hGood.browser.sound
        (fun _ => scopes_getElem?_browser (found_ok_iff.mp hCtrs)) hOpen hLimit.1 hLimit.2) hIntervals hDecl

end

theorem executeBrowserDeclaration_replies
    (hExec : executeBrowserDeclaration rb a request = .ok answer) : Replies rb a answer.1 answer.2 := by
  obtain ⟨-, -, hExec⟩ := bind_ok hExec
  obtain ⟨browser, hLock, hExec⟩ := bind_ok hExec
  obtain ⟨s, hSrc, hExec⟩ := bind_ok hExec
  obtain ⟨counters, -, hExec⟩ := bind_ok hExec
  obtain ⟨state, hState, hExec⟩ := bind_ok hExec
  obtain ⟨_, hCur, hExec⟩ := bind_ok hExec
  obtain ⟨replayed, -, hExec⟩ := bind_ok hExec
  have hLocked := BrowserQuiet.rests hGood (lockBrowserDelivery_quiet hGood.browser hLock)
  have hOpen : state.2.closure.isExpired a.now = false := by simpa using require_ok_iff.mp hCur
  replace hSrc := found_ok_iff.mp hSrc
  have hStat := browserSourceState_spec hState (hLocked.good.browser.seen hSrc)
  split_ifs at hExec
  · obtain rfl := pure_ok hExec
    exact hLocked.replies _
  · exact hLocked.then_replies
      (declareBrowserPositions_replies hLocked.good hSrc hStat (hStat.undue hOpen) hExec)

theorem storeNativeDeclaration_replies {s : DeliverySource β}
    (hSrc : a.native.sources[request.source]? = some s) (hStep : ∀ settledThrough, DeclarationStep s
      (s.declare request placed.1 placed.2 settledThrough) summaryOnly
      request.declaration.ranges.length)
    (hAdmits : summaryOnly = false → (a.native.book true a.intervals).Admits (deliveryLimits true)
      s.lane.scope (0, 0, placed.2 - s.allocated))
    (hFits : ¬ exceedsIntervals a.intervals request)
    (hStore : storeNativeDeclaration rb rn a request s placed = .ok answer) :
    Replies rb a answer.1 answer.2 := by
  obtain ⟨prospective, -, hStore⟩ := bind_ok hStore
  split at hStore
  · obtain ⟨latched, hLatch, rfl⟩ := bind_pure_ok hStore
    exact (latchDeliveryMetadata_rests hGood hLatch).replies _
  · cases hStore
  obtain ⟨native, hAdv, rfl⟩ := bind_pure_ok hStore
  have hRanges := exceedsIntervals_false hFits
  have hDecl := hStep prospective.settledThrough
  have hMoves := (hDecl.charged (hGood.native.seen hSrc) hAdmits hRanges).moves_owner
    hGood.native.regular hSrc (by omega)
  simp only [lane, hDecl.rows, sub_self, add_zero] at hMoves
  have hQuiet := advanceNativeInterpretation_quiet (hMoves.good hGood.native) hAdv
  have hKeeps := (keepsOpen_of_sources hSrc rfl hDecl.closed).trans hQuiet.2
  have hObserves := observes hGood.browser (Int.natCast_nonneg _)
    (hRanges.imp Int.natCast_eq_zero.mpr id)
  exact (reaches_of_moves hGood hObserves (hMoves.trans hQuiet.1.toMoves) .refl hKeeps _).accepted

theorem declareNativePositions_replies {s : DeliverySource β}
    (hSrc : a.native.sources[request.source]? = some s)
    (hDecl : declareNativePositions rb rn a request s = .ok answer) :
    Replies rb a answer.1 answer.2 := by
  simp only [declareNativePositions] at hDecl
  obtain ⟨progress, -, hDecl⟩ := bind_ok hDecl
  obtain ⟨counters, hCtrs, hDecl⟩ := bind_ok hDecl
  obtain ⟨placed, hPlace, hDecl⟩ := bind_ok hDecl
  split_ifs at hDecl with hLimit hIntervals
  · obtain rfl := pure_ok hDecl
    exact (Quiet.rests_native hGood (latchNativeDelivery_quiet _ _)).replies _
  · obtain ⟨latched, hLatch, rfl⟩ := bind_pure_ok hDecl
    exact (latchDeliveryMetadata_rests hGood hLatch).replies _
  · simp only [Bool.or_eq_true, decide_eq_true_eq, not_or, not_lt, gt_iff_lt] at hLimit
    have hOwner : s.lane.scope = request.source := hGood.native.regular.owner rfl _ s hSrc
    exact storeNativeDeclaration_replies hGood hSrc
      (placeDeclaration_step (hGood.native.lane hSrc) hPlace)
      (fun hOpen => hOwner.symm ▸ admits_positions hGood.native.sound
        (fun _ => scopes_getElem?_native (found_ok_iff.mp hCtrs) hSrc) hOpen hLimit.1 hLimit.2) hIntervals hDecl

theorem executeNativeDeclaration_replies
    (hExec : executeNativeDeclaration rb rn a request = .ok answer) :
    Replies rb a answer.1 answer.2 := by
  obtain ⟨-, -, hExec⟩ := bind_ok hExec
  obtain ⟨locked, hLock, hExec⟩ := bind_ok hExec
  obtain ⟨s, hSrc, hExec⟩ := bind_ok hExec
  obtain ⟨-, -, hExec⟩ := bind_ok hExec
  obtain ⟨replayed, -, hExec⟩ := bind_ok hExec
  have hLocked := lockNativeDelivery_rests hGood hLock
  refine hLocked.then_replies ?_
  split_ifs at hExec
  · obtain ⟨native, hAdv, rfl⟩ := bind_pure_ok hExec
    exact (advanceNativeInterpretation_rests hLocked.good hAdv).replies _
  · exact declareNativePositions_replies hLocked.good (found_ok_iff.mp hSrc) hExec

end Attempts

end Proctor.Delivery
