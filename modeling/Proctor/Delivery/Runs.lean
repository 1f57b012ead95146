import Proctor.Delivery.ControlMoves

/-!
# Runs of delivery operations

Every operation is a sequence of changes of the two books, and one that is not
accepted leaves the counters as they were. Along a run from the first state of an
Attempt the books are therefore sound, and their counters are those of the rows
and positions at hand.
-/

namespace Proctor.Delivery

open Ranges Ledger Fallible List FamilyState Attempt

section Lifecycle

variable {α β : Type} {rb : Reading α} {rn : Reading β}
  {a a' : Attempt α β} {p : Nat}

theorem isOver_mono {part : Participation} {now later : Instant} (hLater : now ≤ later)
    (hOver : part.isOver now = true) : part.isOver later := by
  simp only [Participation.isOver, Bool.or_eq_true, Bool.not_eq_true', decide_eq_false_iff_not,
    not_lt] at hOver ⊢
  exact hOver.imp id fun hLease => hLease.trans hLater

theorem tick_rests (hGood : a.Good) (elapsed : Nat) :
    Rests rb a { a with now := a.now + elapsed } := by
  refine ⟨⟨.refl, .refl, .refl, { hGood with concluded := fun k s part hSrc hPart hClosed => ?_ }⟩, rfl⟩
  have hLater : a.now ≤ a.now + elapsed := Int.le_add_of_nonneg_right (Int.natCast_nonneg elapsed)
  exact isOver_mono hLater (hGood.concluded k s part hSrc hPart hClosed)

/-! ### Admission -/

theorem connect_reaches {lease : Instant} (hGood : a.Good) (hConnect : connect a lease = .ok a') :
    Reaches rb a a' := by
  simp only [connect, bind_ok_iff, pure_ok_iff] at hConnect
  obtain ⟨-, -, reserved, -, rfl⟩ := hConnect
  have hStreams := hGood.native.regular.streams rfl
  have hScopes : (List.zipWith streamScope (a.native.participations ++ [.zero])
      (a.native.sources ++ [.start a.participations.length a.now])) =
      List.zipWith streamScope a.native.participations a.native.sources ++ [Scope.fresh] := by
    rw [zipWith_append hStreams.symm]
    rfl
  have hBrowser : Changes (deliveryLimits false) (a.browser.book false a.intervals)
      (book false a.intervals
        { a.browser with participations := a.browser.participations ++ [.zero] }) := by
    have hOpen : Change (deliveryLimits false) (a.browser.book false a.intervals) _ := .openScope
    refine .single ?_
    simp only [book, scopes, map_append] at hOpen ⊢
    exact hOpen
  have hNative : Changes (deliveryLimits true) (a.native.book true a.intervals)
      (book true a.intervals { a.native with
        participations := a.native.participations ++ [.zero]
        sources := a.native.sources ++ [.start a.participations.length a.now] }) := by
    have hScope : Change (deliveryLimits true) (a.native.book true a.intervals) _ := .openScope
    have hLane : Change (deliveryLimits true)
        { a.native.book true a.intervals with
          scopes := (a.native.book true a.intervals).scopes ++ [Scope.fresh] } _ :=
      .openLane a.participations.length (by
        have := hGood.native_counters
        simp only [book, scopes, if_true, length_append,
          length_zipWith, length_singleton]
        omega)
    refine .tail (.single hScope) ?_
    simpa [book, scopes, hScopes, DeliverySource.lane_start] using hLane
  refine ⟨hBrowser, hNative, .single (.keep (kept_of_sources rfl rfl rfl rfl)), ?_⟩
  refine
    { browser := ⟨Changes.sound hBrowser hGood.browser.sound, ?_⟩
      native := ⟨Changes.sound hNative hGood.native.sound, ?_⟩
      browser_counters := by simpa using hGood.browser_counters
      native_counters := by simpa using hGood.native_counters
      concluded := ?_ }
  · exact ⟨hGood.browser.regular.seen, by simp, by simp⟩
  · refine ⟨?_, fun _ => by simpa using hStreams, fun _ k s hs => ?_⟩
    · exact forall_mem_append.mpr ⟨hGood.native.regular.seen, by simp [DeliverySource.start]⟩
    obtain hOld | ⟨rfl, rfl⟩ := getElem?_concat hs
    · exact hGood.native.regular.owner rfl k s hOld
    have := hGood.native_counters
    simp only [DeliverySource.start]
    omega
  · intro k s part hSrc hPart hClosed
    obtain hOld | ⟨-, rfl⟩ := getElem?_concat hSrc
    · obtain hPart | ⟨rfl, -⟩ := getElem?_concat hPart
      · exact hGood.concluded k s part hOld hPart hClosed
      have hBound := (List.getElem?_eq_some_iff.mp hOld).1
      have := hGood.native_counters
      omega
    · cases hClosed

/-! ### Browser sources -/

theorem closePredecessor_quiet {transition : SourceTransition} {browser : FamilyState α}
    (hGood : a.Good) (hClose : closePredecessor rb a p transition = .ok browser) :
    BrowserQuiet rb a.intervals a.browser browser := by
  cases transition with
  | runtimeReset prior =>
    obtain ⟨s, -, hClose⟩ := bind_ok hClose
    obtain ⟨-, -, hClose⟩ := bind_ok hClose
    exact closeBrowserSource_quiet hGood.browser hClose
  | initial | policyCorrection =>
    cases hClose
    exact BrowserQuiet.refl a.browser

variable {answer : Attempt α β × Outcome} {input : BrowserSourceStart}

theorem refuseBrowserSourceStart_rests {fault : Fault} (hGood : a.Good)
    (hRefuse : refuseBrowserSourceStart rb a input fault = .ok answer) : Rests rb a answer.1 := by
  simp only [refuseBrowserSourceStart] at hRefuse
  split at hRefuse
  · obtain ⟨browser, hClose, hRefuse⟩ := bind_ok hRefuse
    have hClosed := BrowserQuiet.rests hGood (closePredecessor_quiet hGood hClose)
    split at hRefuse
    · obtain ⟨latched, hLatch, rfl⟩ := bind_pure_ok hRefuse
      exact hClosed.trans (latchDeliveryMetadata_rests hClosed.good hLatch)
    · obtain rfl := pure_ok hRefuse
      exact hClosed
  · cases hRefuse

theorem moves_start {f : FamilyState α} {intervals : Int} (startedAt : Instant)
    (hScope : p < f.participations.length) :
    Moves false intervals intervals f { f with sources := f.sources ++ [.start p startedAt] } where
  changes := by
    have hOpen : Change (deliveryLimits false) (f.book false intervals) _ :=
      .openLane p (by simpa [book, scopes] using hScope)
    refine .single ?_
    simp only [book, scopes, map_append, map_singleton,
      DeliverySource.lane_start] at hOpen ⊢
    exact hOpen
  regular := fun hRegular =>
    ⟨forall_mem_append.mpr ⟨hRegular.seen, by simp [DeliverySource.start]⟩, nofun, nofun⟩
  participations := rfl
  retired := rfl

theorem insertBrowserSource_reaches {reserved : Int} (hGood : a.Good)
    (hScope : input.participation < a.participations.length)
    (hIns : insertBrowserSource rb a input reserved = .ok answer) : Replies rb a answer.1 answer.2 := by
  simp only [insertBrowserSource, bind_ok_iff, pure_ok_iff] at hIns
  obtain ⟨browser, hClose, settled, hSettle, rfl⟩ := hIns
  have hClosed := closePredecessor_quiet hGood hClose
  have hScope' : input.participation < browser.participations.length := by
    rw [hClosed.participations, hGood.browser_counters]
    exact hScope
  have hStarted := hClosed.toMoves.trans (moves_start a.now hScope')
  obtain ⟨hSet, hRev⟩ := settle_edited hSettle (hStarted.good hGood.browser)
    (edited_start browser input.participation a.now)
  exact ((hStarted.trans hSet.toMoves).reaches_browser hGood (hClosed.reviews.trans hRev)
    reserved).accepted

theorem startBrowserActivity_replies (hGood : a.Good)
    (hStart : startBrowserActivity rb a input = .ok answer) : Replies rb a answer.1 answer.2 := by
  obtain ⟨part, hPart, hStart⟩ := bind_ok hStart
  obtain ⟨-, -, hStart⟩ := bind_ok hStart
  have hScope := (List.getElem?_eq_some_iff.mp (found_ok_iff.mp hPart)).1
  split at hStart
  · exact (refuseBrowserSourceStart_rests hGood hStart).replies _
  · cases hStart
  split at hStart
  · exact (refuseBrowserSourceStart_rests hGood hStart).replies _
  · exact insertBrowserSource_reaches hGood hScope hStart

variable {summary : UnretainedDeliverySummary}

theorem storeBrowserSummary_ok {now : Instant} {s stored : DeliverySource α} {closure : DeliveryClosure}
    (hStore : storeBrowserSummary now s closure summary = .ok stored) :
    stored.lane = s.lane ∧ stored.seen = s.seen ∧ stored.rows = s.rows := by
  obtain ⟨-, -, rfl⟩ := bind_pure_ok hStore
  exact ⟨rfl, rfl, rfl⟩

variable {guarded : Bool}

variable (hGood : a.Good)
include hGood

theorem updateBrowserDeliverySummary_rests {j : Nat}
    (hUpd : updateBrowserDeliverySummary rb a j guarded summary = .ok a') : Rests rb a a' := by
  obtain ⟨-, -, hUpd⟩ := bind_ok hUpd
  obtain ⟨locked, hLock, hUpd⟩ := bind_ok hUpd
  obtain ⟨s, hSrc, hUpd⟩ := bind_ok hUpd
  obtain ⟨counters, -, hUpd⟩ := bind_ok hUpd
  obtain ⟨state, -, hUpd⟩ := bind_ok hUpd
  obtain ⟨-, -, hUpd⟩ := bind_ok hUpd
  obtain ⟨replayed, -, hUpd⟩ := bind_ok hUpd
  have hQuiet := lockBrowserDelivery_quiet hGood.browser hLock
  split_ifs at hUpd
  · obtain rfl := pure_ok hUpd
    exact BrowserQuiet.rests hGood hQuiet
  obtain ⟨stored, hStore, hUpd⟩ := bind_ok hUpd
  obtain ⟨settled, hSettle, rfl⟩ := bind_pure_ok hUpd
  replace hSrc := found_ok_iff.mp hSrc
  obtain ⟨hLane, hSeen, hRows⟩ := storeBrowserSummary_ok hStore
  have hStored := settle_quiet_edit (hQuiet.good hGood.browser) (quiet_same hSrc hLane hSeen)
    (edited_same hSrc (congrArg Lane.scope hLane) hRows) hSettle
  exact BrowserQuiet.rests hGood (hQuiet.trans hStored)

theorem expireBrowserDelivery_rests {j : Nat}
    (hExpire : expireBrowserDelivery rb a j = .ok a') : Rests rb a a' := by
  obtain ⟨s, -, hExpire⟩ := bind_ok hExpire
  split at hExpire
  · simp only [bind_ok_iff, pure_ok_iff, source, found_ok_iff] at hExpire
    obtain ⟨settled, hSettle, expired, hSrc, rfl⟩ := hExpire
    have hQuiet := settleBrowserSource_quiet hGood.browser hSettle
    exact BrowserQuiet.rests hGood
      (hQuiet.trans ⟨quiet_same hSrc rfl rfl, .single (.keep (kept_putSource hSrc rfl))⟩)
  · obtain rfl := pure_ok hExpire
    exact Rests.refl hGood

/-! ### Native streams -/

theorem endParticipation_rests {reason : DeliveryCloseReason} {instant : Instant}
    (hEnd : endParticipation rb a p reason instant = .ok a') : Rests rb a a' := by
  obtain ⟨part, hPart, hEnd⟩ := bind_ok hEnd
  obtain ⟨-, -, hClose⟩ := bind_ok hEnd
  have hBound := (List.getElem?_eq_some_iff.mp (found_ok_iff.mp hPart)).1
  generalize hEnded : ({ part with endedAt := some instant, endReason := reason } : Participation) =
    ended at hClose
  have hOver : ended.isOver a.now := by
    rw [← hEnded]
    rfl
  have hSet : Rests rb a { a with participations := a.participations.set p ended } := by
    refine ⟨⟨.refl, .refl, .refl, { hGood with
      browser_counters := by simpa using hGood.browser_counters
      native_counters := by simpa using hGood.native_counters
      concluded := fun k s other hSrc hOther hClosed => ?_ }⟩, rfl⟩
    simp only [List.getElem?_set] at hOther
    by_cases hIndex : p = k
    · subst hIndex
      simp only [if_true, hBound, Option.some.injEq] at hOther
      rw [← hOther]
      exact hOver
    · simp only [hIndex, if_false] at hOther
      exact hGood.concluded k s other hSrc hOther hClosed
  refine hSet.trans (closeNativeDelivery_rests hSet.good (fun other hOther => ?_) hClose)
  simp only [List.getElem?_set, if_true, hBound, Option.some.injEq] at hOther
  rw [← hOther]
  exact hOver

theorem refreshNativeDelivery_rests
    (hFresh : refreshNativeDelivery rb rn a p guarded = .ok a') : Rests rb a a' := by
  simp only [refreshNativeDelivery, bind_ok_iff, pure_ok_iff] at hFresh
  obtain ⟨locked, hLock, native, hAdv, rfl⟩ := hFresh
  have hLocked := lockNativeDelivery_rests hGood hLock
  exact hLocked.trans (advanceNativeInterpretation_rests hLocked.good hAdv)

theorem updateNativeDeliverySummary_rests
    (hUpd : updateNativeDeliverySummary rb rn a p guarded = .ok a') : Rests rb a a' := by
  simp only [updateNativeDeliverySummary, bind_ok_iff, pure_ok_iff] at hUpd
  obtain ⟨locked, hLock, s, -, -, -, native, hAdv, rfl⟩ := hUpd
  have hLocked := lockNativeDelivery_rests hGood hLock
  exact hLocked.trans (advanceNativeInterpretation_rests hLocked.good hAdv)

theorem stopDeliveryDetails_rests {family : DeliveryFamily}
    {reason : DeliveryStopReason}
    (hStop : stopDeliveryDetails rb rn a p guarded family reason = .ok a') : Rests rb a a' := by
  obtain ⟨part, -, hStop⟩ := bind_ok hStop
  obtain ⟨-, -, hStop⟩ := bind_ok hStop
  cases family with
  | native =>
    have hLatched : Rests rb a _ :=
      Quiet.rests_native hGood (latchNativeDelivery_quiet (p := p) reason false)
    exact hLatched.trans (refreshNativeDelivery_rests hLatched.good hStop)
  | browser =>
    obtain ⟨latched, hLatch, hStop⟩ := bind_ok hStop
    obtain ⟨-, -, hStop⟩ := bind_ok hStop
    obtain ⟨settled, hSettle, rfl⟩ := bind_pure_ok hStop
    have hQuiet := latchBrowserDelivery_quiet hGood.browser hLatch
    exact BrowserQuiet.rests hGood
      (hQuiet.trans (settleBrowserSources_quiet (hQuiet.good hGood.browser) hSettle))

theorem expireNativeStream_rests
    (hExpire : expireNativeStream rn a p = .ok a') : Rests rb a a' := by
  obtain ⟨s, hSrc, hExpire⟩ := bind_ok hExpire
  split at hExpire
  · simp only [bind_ok_iff, pure_ok_iff, persisted_ok_iff] at hExpire
    obtain ⟨-, -, closure, hClosure, native, hAdv, rfl⟩ := hExpire
    have hExp : Rests rb a _ := Quiet.rests_native hGood
      (quiet_expire true (found_ok_iff.mp hSrc) hClosure)
    exact hExp.trans (advanceNativeInterpretation_rests hExp.good hAdv)
  · obtain rfl := pure_ok hExpire
    exact Rests.refl hGood

end Lifecycle

/-! ## The machine -/

section Machine

variable {α β : Type} {rb : Reading α} {rn : Reading β} {a a' : Attempt α β}
  {answer : Attempt α β × Outcome}

theorem accepted_ok {result : Except Fault (Attempt α β)}
    (hAccepted : accepted result = .ok answer) : result = .ok answer.1 ∧ answer.2 = .accepted := by
  obtain ⟨a, hRes, rfl⟩ := bind_pure_ok hAccepted
  exact ⟨hRes, rfl⟩

theorem acceptedBrowser_ok {result : Except Fault (FamilyState α)}
    (hAccepted : acceptedBrowser a result = .ok answer) :
    ∃ browser, result = .ok browser ∧ answer.1 = { a with browser := browser } := by
  obtain ⟨browser, hRes, rfl⟩ := bind_pure_ok hAccepted
  exact ⟨browser, hRes, rfl⟩

theorem DeliveryOp.execute_replies {op : DeliveryOp α β}
    (hGood : a.Good) (hExec : op.execute rb rn a = .ok answer) : Replies rb a answer.1 answer.2 := by
  cases op with
  | tick elapsed =>
    cases hExec
    exact (tick_rests hGood elapsed).replies _
  | connect lease =>
    obtain ⟨hConnect, hOut⟩ := accepted_ok hExec
    rw [hOut]
    exact (connect_reaches hGood hConnect).accepted
  | startBrowser input => exact startBrowserActivity_replies hGood hExec
  | lockBrowser j guarded =>
    obtain ⟨browser, hLock, hAns⟩ := acceptedBrowser_ok hExec
    rw [hAns]
    exact (BrowserQuiet.rests hGood (lockBrowserDelivery_quiet hGood.browser hLock)).replies _
  | appendBrowser input =>
    obtain ⟨reply, hAppend, rfl⟩ := bind_pure_ok hExec
    obtain ⟨hMoves, hQuiet, hRev⟩ := performBrowserAppend_answered hGood.browser hAppend
    exact ⟨hMoves.reaches_browser hGood hRev a.metadata,
      fun hRefused => Prod.ext (hQuiet hRefused) rfl⟩
  | declareBrowser request => exact executeBrowserDeclaration_replies hGood hExec
  | summariseBrowser j guarded summary =>
    exact (updateBrowserDeliverySummary_rests hGood (accepted_ok hExec).1).replies _
  | lockNative p guarded => exact (lockNativeDelivery_rests hGood (accepted_ok hExec).1).replies _
  | appendNative input => exact executeNativeAppend_replies hGood hExec
  | declareNative request => exact executeNativeDeclaration_replies hGood hExec
  | summariseNative p guarded =>
    exact (updateNativeDeliverySummary_rests hGood (accepted_ok hExec).1).replies _
  | control input =>
    obtain ⟨hCtl, hOut⟩ := accepted_ok hExec
    rw [hOut]
    exact (changeParticipationControl_reaches hGood hCtl).accepted
  | stopDetails p guarded family reason =>
    exact (stopDeliveryDetails_rests hGood (accepted_ok hExec).1).replies _
  | expireBrowser j => exact (expireBrowserDelivery_rests hGood (accepted_ok hExec).1).replies _
  | expireNative p => exact (expireNativeStream_rests hGood (accepted_ok hExec).1).replies _
  | endParticipation p reason instant =>
    exact (endParticipation_rests hGood (accepted_ok hExec).1).replies _
  | closeSitting enabled =>
    obtain ⟨browser, hClose, hAns⟩ := acceptedBrowser_ok hExec
    rw [hAns]
    exact (BrowserQuiet.rests hGood (closeBrowserSources_quiet hGood.browser hClose)).replies _
  | settleSubmission reason =>
    obtain ⟨browser, hSettle, hAns⟩ := acceptedBrowser_ok hExec
    rw [hAns]
    exact (BrowserQuiet.rests hGood
      (settleSubmissionBrowserSources_quiet hGood.browser hSettle)).replies _

theorem DeliveryOp.step_reaches (hGood : a.Good) (op : DeliveryOp α β) :
    Reaches rb a (op.step rb rn a) := by
  unfold DeliveryOp.step
  cases hExec : op.execute rb rn a with
  | error fault => exact Reaches.refl hGood
  | ok answer => exact (op.execute_replies hGood hExec).reaches

theorem run_reaches (hGood : a.Good) (ops : List (DeliveryOp α β)) :
    Reaches rb a (run rb rn a ops) := by
  induction ops generalizing a with
  | nil => exact Reaches.refl hGood
  | cons op rest ih =>
    have hStep : Reaches rb a (op.step rb rn a) := op.step_reaches hGood
    exact hStep.trans (ih hStep.good)

theorem Attempt.initial_good (now : Instant) : (initial now : Attempt α β).Good where
  browser := ⟨Book.empty_sound _, by simp [initial, empty], nofun, nofun⟩
  native := ⟨Book.empty_sound _, by simp [initial, empty], fun _ => rfl,
    by simp [initial, empty]⟩
  browser_counters := rfl
  native_counters := rfl
  concluded := by simp [Over, initial, empty]

def Attempt.after (browserReading : Reading α) (nativeReading : Reading β) (start : Instant)
    (ops : List (DeliveryOp α β)) : Attempt α β :=
  run browserReading nativeReading (Attempt.initial start) ops

theorem Attempt.after_reaches (browserReading : Reading α) (nativeReading : Reading β)
    (start : Instant) (ops : List (DeliveryOp α β)) :
    Reaches browserReading (initial start) (after browserReading nativeReading start ops) :=
  run_reaches (initial_good start) ops

end Machine

end Proctor.Delivery
