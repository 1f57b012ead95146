import Proctor.Delivery.Appends

/-!
# The moves of the Native family and of the Attempt

A Native stream closes only once its Participation is over, and a control only
runs before that: no watermark reaches a closed stream.
-/

namespace Proctor.Delivery

open Ranges Ledger Fallible

/-! ## Streams -/

section Streams

variable {β : Type} {reading : Reading β} {intervals : Int} {f f' f'' : FamilyState β} {p : Nat}
  {s : DeliverySource β}

def KeepsOpen (f f' : FamilyState β) : Prop :=
  ∀ (p : Nat) (s' : DeliverySource β), f'.sources[p]? = some s' → s'.isClosed = true →
    ∃ s, f.sources[p]? = some s ∧ s.isClosed = true

theorem KeepsOpen.refl (f : FamilyState β) : KeepsOpen f f :=
  fun _ s hs hClosed => ⟨s, hs, hClosed⟩

theorem KeepsOpen.trans (h : KeepsOpen f f') (h' : KeepsOpen f' f'') : KeepsOpen f f'' := by
  intro p s'' hs'' hClosed
  obtain ⟨s', hs', hClosed'⟩ := h' p s'' hs'' hClosed
  exact h p s' hs' hClosed'

theorem keepsOpen_of_sources {s' : DeliverySource β} (hSrc : f.sources[p]? = some s)
    (hSources : f'.sources = f.sources.set p s') (hClosed : s'.isClosed = s.isClosed) :
    KeepsOpen f f' := by
  intro k t ht hClosed'
  rw [hSources, List.getElem?_set] at ht
  by_cases hIndex : p = k
  · subst hIndex
    have hBound := (List.getElem?_eq_some_iff.mp hSrc).1
    simp only [if_true, hBound, Option.some.injEq] at ht
    exact ⟨s, hSrc, by rw [← hClosed, ht]; exact hClosed'⟩
  · exact ⟨t, by simpa [hIndex] using ht, hClosed'⟩

theorem keepsOpen_of_same (hSources : f'.sources = f.sources) : KeepsOpen f f' :=
  fun _ s hs hClosed => ⟨s, hSources ▸ hs, hClosed⟩

theorem keepsOpen_terminate (f : FamilyState β) (chosen : DeliverySource β → Bool) :
    KeepsOpen f (f.terminate chosen) := by
  intro k t ht hClosed
  simp only [FamilyState.terminate, List.getElem?_map] at ht
  obtain ⟨s, hs, rfl⟩ := Option.map_eq_some_iff.mp ht
  refine ⟨s, hs, ?_⟩
  split at hClosed <;> exact hClosed

theorem advanceNativeInterpretation_ok
    (hAdv : advanceNativeInterpretation reading f p = .ok f') :
    ∃ s progress rows, f.sources[p]? = some s ∧ s.progress = .ok progress ∧
      entriesOf rows = (entriesOf s.rows).map (Entry.interpretThrough progress.settledThrough) ∧
      f' = { f.putSource p (s.settleAt rows progress.highestContiguous progress.settledThrough) with
        pending := f.pending - releasedBy progress.settledThrough (entriesOf s.rows) } := by
  simp only [advanceNativeInterpretation, bind_ok_iff, pure_ok_iff, FamilyState.source,
    found_ok_iff, persisted_ok_iff] at hAdv
  obtain ⟨s, hSrc, progress, hProg, rows, hRows, rfl⟩ := hAdv
  have hEnts := advanceRows_entries hRows
  exact ⟨s, progress, rows, hSrc, hProg, hEnts, rfl⟩

theorem advanceNativeInterpretation_quiet (hGood : f.Good true intervals)
    (hAdv : advanceNativeInterpretation reading f p = .ok f') :
    Quiet true intervals f f' ∧ KeepsOpen f f' := by
  obtain ⟨s, progress, rows, hSrc, hProg, hRows, rfl⟩ :=
    advanceNativeInterpretation_ok hAdv
  have hFront := frontier_of_resolve (hGood.lane hSrc) hProg
  exact ⟨quiet_settleAt _ hGood hSrc hFront hRows, keepsOpen_of_sources hSrc rfl rfl⟩

theorem latchNativeDelivery_quiet (reason : DeliveryStopReason) (attemptScope : Bool) :
    Quiet true intervals f (latchNativeDelivery f p reason attemptScope) ∧
      KeepsOpen f (latchNativeDelivery f p reason attemptScope) := by
  cases attemptScope with
  | true =>
    exact ⟨(quiet_stopAttempt reason).trans (quiet_terminate _),
      (keepsOpen_of_same rfl).trans (keepsOpen_terminate _ _)⟩
  | false =>
    exact ⟨(quiet_stopParticipation p reason).trans (quiet_terminate _),
      (keepsOpen_of_same rfl).trans (keepsOpen_terminate _ _)⟩

end Streams

/-! ## Attempts -/

section Attempts

variable {α β : Type}

def Attempt.Over (a : Attempt α β) : Prop :=
  ∀ (p : Nat) (s : DeliverySource β) (part : Participation), a.native.sources[p]? = some s →
    a.participations[p]? = some part → s.isClosed = true → part.isOver a.now = true

structure Attempt.Good (a : Attempt α β) : Prop where
  browser : a.browser.Good false a.intervals
  native : a.native.Good true a.intervals
  browser_counters : a.browser.participations.length = a.participations.length
  native_counters : a.native.participations.length = a.participations.length
  concluded : a.Over

/-- Both books changed as the ledger allows, the Browser family was reviewed, and the
state is good again. -/
structure Reaches (reading : Reading α) (a a' : Attempt α β) : Prop where
  browser : Changes (deliveryLimits false) (a.browser.book false a.intervals)
    (a'.browser.book false a'.intervals)
  native : Changes (deliveryLimits true) (a.native.book true a.intervals)
    (a'.native.book true a'.intervals)
  reviews : Reviews reading a.browser a'.browser
  good : a'.Good

def Attempt.usages (a : Attempt α β) : (List Usage × Usage) × (List Usage × Usage) :=
  (usagesOf (a.browser.book false a.intervals), usagesOf (a.native.book true a.intervals))

structure Rests (reading : Reading α) (a a' : Attempt α β) : Prop extends Reaches reading a a' where
  usage : a'.usages = a.usages

variable {rb : Reading α} {nativeReading : Reading β} {a a' a'' : Attempt α β} {p : Nat}

theorem Reaches.refl (hGood : a.Good) : Reaches rb a a :=
  ⟨.refl, .refl, .refl, hGood⟩

theorem Reaches.trans (h : Reaches rb a a') (h' : Reaches rb a' a'') : Reaches rb a a'' :=
  ⟨h.browser.trans h'.browser, h.native.trans h'.native, h.reviews.trans h'.reviews, h'.good⟩

theorem Rests.refl (hGood : a.Good) : Rests rb a a :=
  ⟨Reaches.refl hGood, rfl⟩

theorem Rests.trans (h : Rests rb a a') (h' : Rests rb a' a'') : Rests rb a a'' :=
  ⟨h.toReaches.trans h'.toReaches, h'.usage.trans h.usage⟩

variable {browser : FamilyState α} {native : FamilyState β} {closure : DeliveryClosure} {instant : Instant}
   {reason : DeliveryCloseReason} {s : DeliverySource β}

section

variable (hGood : a.Good)
include hGood

theorem reaches_of_moves {i' : Int}
    (hBrowser : Moves false a.intervals i' a.browser browser)
    (hNative : Moves true a.intervals i' a.native native) (hRev : Reviews rb a.browser browser)
    (hKeeps : KeepsOpen a.native native) (metadata : Int) :
    Reaches rb a { a with
      browser := browser, native := native, metadata := metadata, intervals := i' } where
  browser := hBrowser.changes
  native := hNative.changes
  reviews := hRev
  good :=
    { browser := hBrowser.good hGood.browser
      native := hNative.good hGood.native
      browser_counters := hBrowser.participations.trans hGood.browser_counters
      native_counters := hNative.participations.trans hGood.native_counters
      concluded := fun p s part hSrc hPart hClosed => by
        obtain ⟨t, ht, hBefore⟩ := hKeeps p s hSrc hClosed
        exact hGood.concluded p t part ht hPart hBefore }

theorem Moves.reaches_browser
    (hMoves : Moves false a.intervals a.intervals a.browser browser)
    (hRev : Reviews rb a.browser browser) (metadata : Int) :
    Reaches rb a { a with browser := browser, metadata := metadata } :=
  reaches_of_moves hGood hMoves (Moves.refl _) hRev (KeepsOpen.refl _) metadata

theorem BrowserQuiet.rests
    (hQuiet : BrowserQuiet rb a.intervals a.browser browser) :
    Rests rb a { a with browser := browser } :=
  ⟨hQuiet.toMoves.reaches_browser hGood hQuiet.reviews a.metadata, Prod.ext hQuiet.usage rfl⟩

theorem Moves.reaches_native
    (hMoves : Moves true a.intervals a.intervals a.native native)
    (hKeeps : KeepsOpen a.native native) (metadata : Int) :
    Reaches rb a { a with native := native, metadata := metadata } :=
  reaches_of_moves hGood (Moves.refl _) hMoves .refl hKeeps metadata

theorem Quiet.rests_native
    (hQuiet : Quiet true a.intervals a.native native ∧ KeepsOpen a.native native) :
    Rests rb a { a with native := native } :=
  ⟨hQuiet.1.toMoves.reaches_native hGood hQuiet.2 a.metadata, Prod.ext rfl hQuiet.1.usage⟩

theorem rests_metadata (metadata : Int) :
    Rests rb a { a with metadata := metadata } :=
  ⟨(Moves.refl a.browser).reaches_browser hGood .refl metadata, rfl⟩

/-! ## Close and lock -/

section

variable (hOver : ∀ part, a.participations[p]? = some part → part.isOver a.now)
include hOver

theorem rests_close
    (hSrc : a.native.sources[p]? = some s)
    (hClose : s.closure.close true reason s.allocated instant none = .ok closure) :
    Rests rb a { a with native := a.native.putSource p { s with closure := closure } } := by
  have hQuiet : Quiet true a.intervals a.native
      (a.native.putSource p { s with closure := closure }) := by
    obtain hLane | hStep := lane_of_close { s with closure := closure } hClose rfl
    · exact quiet_same hSrc hLane rfl
    · exact quiet_rebound hSrc hStep rfl rfl rfl
  refine ⟨⟨.refl, hQuiet.changes, .refl, ?_⟩, Prod.ext rfl hQuiet.usage⟩
  refine
    { browser := hGood.browser
      native := hQuiet.good hGood.native
      browser_counters := hGood.browser_counters
      native_counters := hQuiet.participations.trans hGood.native_counters
      concluded := fun k t part ht hPart hClosed => ?_ }
  by_cases hIndex : p = k
  · subst hIndex
    exact hOver part hPart
  · simp only [FamilyState.putSource, List.getElem?_set, hIndex, if_false] at ht
    exact hGood.concluded k t part ht hPart hClosed

theorem closeNativeDelivery_rests
    (hClose : closeNativeDelivery rb a p reason instant = .ok a') : Rests rb a a' := by
  simp only [closeNativeDelivery, bind_ok_iff, pure_ok_iff, FamilyState.source,
    found_ok_iff] at hClose
  obtain ⟨s, hSrc, part, -, -, -, closure, hClosure, browser, hBrowser, rfl⟩ := hClose
  have hClosed : Rests rb a _ := rests_close hGood hOver hSrc hClosure
  have hQuiet := closeBrowserSources_quiet hGood.browser hBrowser
  exact hClosed.trans (BrowserQuiet.rests hClosed.good hQuiet)

end

theorem closeEndedNativeDelivery_rests {guarded : Bool}
    (hClose : closeEndedNativeDelivery rb a p s guarded = .ok a') : Rests rb a a' := by
  obtain ⟨part, hPart, hClose⟩ := bind_ok hClose
  split_ifs at hClose with hClosed hOver
  · obtain rfl := pure_ok hClose
    exact Rests.refl hGood
  · refine closeNativeDelivery_rests hGood (fun other hOther => ?_) hClose
    cases (found_ok_iff.mp hPart).symm.trans hOther
    exact hOver
  · obtain ⟨-, -, rfl⟩ := bind_pure_ok hClose
    exact Rests.refl hGood

end

theorem quiet_expire {f : FamilyState β} {intervals : Int} {now : Instant} (uploadExpired : Bool)
    (hSrc : f.sources[p]? = some s) (hExpire : s.closure.expire true now = .ok closure) :
    Quiet true intervals f (f.putSource p { s with
      closure := closure, terminal := s.allocated, uploadExpired := uploadExpired }) ∧
      KeepsOpen f (f.putSource p { s with
        closure := closure, terminal := s.allocated, uploadExpired := uploadExpired }) := by
  obtain ⟨hClosed, hBdry, -⟩ := DeliveryClosure.expire_ok hExpire
  have hLane : DeliverySource.lane { s with
      closure := closure, terminal := s.allocated, uploadExpired := uploadExpired } =
      { s.lane with terminal := s.lane.allocated } := by
    simp only [DeliverySource.lane, DeliverySource.boundary, DeliverySource.isClosed, hClosed,
      hBdry]
    rfl
  refine ⟨quiet_rebound hSrc ?_ rfl rfl rfl, keepsOpen_of_sources hSrc rfl ?_⟩
  · rw [hLane]
    exact .terminate
  · simp only [DeliverySource.isClosed, hClosed]

theorem expireNativeDelivery_rests (hGood : a.Good)
    (hExpire : expireNativeDelivery a p = .ok a') : Rests rb a a' := by
  obtain ⟨s, hSrc, hExpire⟩ := bind_ok hExpire
  split_ifs at hExpire
  · obtain ⟨closure, hClosure, rfl⟩ := bind_pure_ok hExpire
    exact Quiet.rests_native hGood
      (quiet_expire s.uploadExpired (found_ok_iff.mp hSrc) hClosure)
  · obtain rfl := pure_ok hExpire
    exact Rests.refl hGood

theorem lockNativeDelivery_rests {guarded : Bool} (hGood : a.Good)
    (hLock : lockNativeDelivery rb a p guarded = .ok a') : Rests rb a a' := by
  simp only [lockNativeDelivery, bind_ok_iff] at hLock
  obtain ⟨-, -, s, -, -, -, closed, hClosed, hExpire⟩ := hLock
  have hRests := closeEndedNativeDelivery_rests hGood hClosed
  exact hRests.trans (expireNativeDelivery_rests hRests.good hExpire)

theorem latchDeliveryMetadata_rests (hGood : a.Good)
    (hLatch : latchDeliveryMetadata rb a = .ok a') : Rests rb a a' := by
  simp only [latchDeliveryMetadata, bind_ok_iff, pure_ok_iff] at hLatch
  obtain ⟨browser, hSettle, rfl⟩ := hLatch
  have hStop : BrowserQuiet rb a.intervals a.browser
      (a.browser.stopAttempt .metadata) := stopAttempt_quiet .metadata
  have hQuiet := hStop.trans (settleExhaustedBrowserSources_quiet (hStop.good hGood.browser) hSettle)
  have hBrowser := BrowserQuiet.rests hGood hQuiet
  exact hBrowser.trans (Quiet.rests_native hBrowser.good
    (latchNativeDelivery_quiet (p := 0) .metadata true))

end Attempts

end Proctor.Delivery
