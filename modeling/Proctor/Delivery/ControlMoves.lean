import Proctor.Delivery.DeclarationMoves

/-!
# Security controls as steps of the ledger

A control runs while its Participation is active, so its stream is open and an
accepted watermark allocates positions there. A rejected watermark charges
nothing.
-/

namespace Proctor.Delivery

open Ranges Ledger Fallible

section Streams

variable {β : Type} {f : FamilyState β} {intervals : Int} {p : Nat} {mark : DeliveryWatermark}

theorem allocate_charged {native : Bool} {s : DeliverySource β} {allocated : Int}
    (hOpen : s.isClosed = false) (hAlloc : s.allocated ≤ allocated) (hSeen : s.seen ≤ s.allocated)
    (hAdmits : (f.book native intervals).Admits (deliveryLimits native) s.lane.scope
      (0, 0, allocated - s.allocated)) :
    Charged native intervals f s { s with allocated := allocated } (0, 0, allocated - s.allocated)
      0 where
  step := .allocate allocated (by simp [DeliverySource.lane, DeliverySource.boundary, hOpen]) hAlloc
  admits := .inr hAdmits
  pending := .inl le_rfl
  ranges := .inl rfl
  seen := hSeen.trans hAlloc

theorem applyNativeControlWatermark_moves {answer : FamilyState β × Bool}
    (hGood : f.Good true intervals) (hOpen : ∀ s, f.sources[p]? = some s → s.isClosed = false)
    (hApply : applyNativeControlWatermark f p mark = .ok answer) :
    Moves true intervals intervals f answer.1 ∧ KeepsOpen f answer.1 ∧
      (answer.2 → Quiet true intervals f answer.1) := by
  simp only [applyNativeControlWatermark, FamilyState.source, FamilyState.counters] at hApply
  obtain ⟨s, hSrc, hApply⟩ := bind_ok hApply
  obtain ⟨counters, hCtrs, hApply⟩ := bind_ok hApply
  replace hSrc := found_ok_iff.mp hSrc
  split_ifs at hApply with hBehind hRejected hWhole
  · obtain rfl := pure_ok hApply
    exact ⟨Moves.refl f, KeepsOpen.refl f, by simp⟩
  · obtain rfl := pure_ok hApply
    have hQuiet : Quiet true intervals f (f.stopAttempt .positions) := quiet_stopAttempt .positions
    exact ⟨hQuiet.toMoves, keepsOpen_of_same rfl, fun _ => hQuiet⟩
  · obtain rfl := pure_ok hApply
    have hQuiet : Quiet true intervals f (f.stopParticipation p .positions) :=
      quiet_stopParticipation p .positions
    exact ⟨hQuiet.toMoves, keepsOpen_of_same rfl, fun _ => hQuiet⟩
  · obtain rfl := pure_ok hApply
    simp only [Bool.or_eq_true, decide_eq_true_eq, not_or, not_lt, gt_iff_lt,
      Bool.not_eq_true] at hRejected
    obtain ⟨⟨hColl, hPart⟩, hWhole⟩ := hRejected
    have hOwner : s.lane.scope = p := hGood.regular.owner rfl p s hSrc
    have hCharged := allocate_charged (hOpen s hSrc) (by omega) (hGood.seen hSrc)
      (hOwner.symm ▸ admits_positions hGood.sound
        (fun _ => scopes_getElem?_native (found_ok_iff.mp hCtrs) hSrc) hColl hPart hWhole)
    have hMoves := hCharged.moves_owner hGood.regular hSrc (by dsimp only; omega)
    simp only [DeliverySource.lane, sub_self, add_zero] at hMoves
    exact ⟨hMoves, keepsOpen_of_sources hSrc rfl rfl, by simp⟩

theorem storeSecurityControl_quiet {f' : FamilyState β} (hStore : storeSecurityControl f p = .ok f') :
    Quiet true intervals f f' ∧ KeepsOpen f f' := by
  simp only [storeSecurityControl, bind_ok_iff, pure_ok_iff] at hStore
  obtain ⟨counters, -, rfl⟩ := hStore
  have hOwner : Quiet true intervals f
      (if f.summaryOnly counters then f.terminate fun s => s.participation = p else f) ∧
      KeepsOpen f
        (if f.summaryOnly counters then f.terminate fun s => s.participation = p else f) := by
    split
    · exact ⟨quiet_terminate _, keepsOpen_terminate _ _⟩
    · exact ⟨Quiet.refl f, KeepsOpen.refl f⟩
  split
  · exact ⟨hOwner.1.trans (quiet_terminate _), hOwner.2.trans (keepsOpen_terminate _ _)⟩
  · exact hOwner

end Streams

section Sources

variable {α : Type} {reading : Reading α} {now : Instant} {f f' : FamilyState α} {intervals : Int}
  {p : Nat} {mark : DeliveryWatermark}

theorem rejectBrowserControlWatermark_quiet {counters : ScopeCounters} {whole : Bool}
    (hGood : f.Good false intervals)
    (hReject : rejectBrowserControlWatermark reading now f p counters whole = .ok f') :
    BrowserQuiet reading intervals f f' := by
  simp only [rejectBrowserControlWatermark, latchUnlessSummaryOnly] at hReject
  obtain ⟨latched, hLatch, hReject⟩ := bind_ok hReject
  obtain ⟨-, -, hSettle⟩ := bind_ok hReject
  have hLatched : BrowserQuiet reading intervals f latched := by
    split at hLatch
    · cases hLatch
      exact BrowserQuiet.refl f
    · exact latchBrowserDelivery_quiet hGood hLatch
  exact hLatched.trans (settleBrowserSources_quiet (hLatched.good hGood) hSettle)

theorem applyBrowserControlWatermark_moves {answer : FamilyState α × Bool}
    (hGood : f.Good false intervals)
    (hOwner : ∀ s, f.sources[mark.source]? = some s → s.participation = p)
    (hApply : applyBrowserControlWatermark reading now f p mark = .ok answer) :
    Moves false intervals intervals f answer.1 ∧ Reviews reading f answer.1 ∧
      (answer.2 → Quiet false intervals f answer.1) := by
  simp only [applyBrowserControlWatermark, FamilyState.source] at hApply
  obtain ⟨s, hSrc, hApply⟩ := bind_ok hApply
  replace hSrc := found_ok_iff.mp hSrc
  split_ifs at hApply with hClosed hBehind
  · obtain rfl := pure_ok hApply
    exact ⟨Moves.refl f, .refl, fun _ => Quiet.refl f⟩
  · obtain rfl := pure_ok hApply
    exact ⟨Moves.refl f, .refl, by simp⟩
  obtain ⟨counters, hCtrs, hApply⟩ := bind_ok hApply
  obtain ⟨-, -, hApply⟩ := bind_ok hApply
  split_ifs at hApply with hRejected
  · obtain ⟨settled, hReject, rfl⟩ := bind_pure_ok hApply
    have hQuiet := rejectBrowserControlWatermark_quiet hGood hReject
    exact ⟨hQuiet.toMoves, hQuiet.reviews, fun _ => hQuiet.toQuiet⟩
  · obtain ⟨settled, hSettle, rfl⟩ := bind_pure_ok hApply
    simp only [Bool.or_eq_true, decide_eq_true_eq, not_or, not_lt, gt_iff_lt,
      Bool.not_eq_true] at hRejected
    obtain ⟨⟨hColl, hPart⟩, hWhole⟩ := hRejected
    obtain rfl := hOwner s hSrc
    have hCharged := allocate_charged (by simpa using hClosed) (by omega) (hGood.seen hSrc)
      (admits_positions hGood.sound (fun _ => scopes_getElem?_browser (found_ok_iff.mp hCtrs)) hColl
        hPart hWhole)
    have hMoves := hCharged.moves_source hSrc
    simp only [DeliverySource.lane, sub_self, add_zero] at hMoves
    obtain ⟨hQuiet, hRev⟩ := settle_edited hSettle (hMoves.good hGood)
      (edited_charge hSrc (by rfl) (by rfl) _ _ _ _)
    exact ⟨hMoves.trans hQuiet.toMoves, hRev, by simp⟩

end Sources

section Attempts

variable {α β : Type} {rb : Reading α} {a a' : Attempt α β} {p : Nat}

/-- The control's Participation is active, and every Browser source it names is its own. -/
structure Attempt.Controls (a : Attempt α β) (p : Nat) (marks : List DeliveryWatermark) : Prop where
  active : ∃ part, a.participations[p]? = some part ∧ part.isOver a.now = false
  owned : ∀ mark ∈ marks, mark.family = .browser →
    ∃ s, a.browser.sources[mark.source]? = some s ∧ s.participation = p

structure Controlled (reading : Reading α) (a a' : Attempt α β) : Prop
    extends Reaches reading a a' where
  now : a'.now = a.now
  participations : a'.participations = a.participations

theorem Controlled.refl (hGood : a.Good) : Controlled rb a a :=
  ⟨Reaches.refl hGood, rfl, rfl⟩

theorem Controlled.trans {a'' : Attempt α β} (h : Controlled rb a a')
    (h' : Controlled rb a' a'') : Controlled rb a a'' :=
  ⟨h.toReaches.trans h'.toReaches, h'.now.trans h.now, h'.participations.trans h.participations⟩

theorem Controlled.source {j : Nat} {s : DeliverySource α} (h : Controlled rb a a')
    (hSrc : a.browser.sources[j]? = some s) :
    ∃ s', a'.browser.sources[j]? = some s' ∧ s'.participation = s.participation := by
  obtain ⟨l, hl, hScope⟩ := Changes.lane_scope h.browser (lanes_getElem? hSrc)
  simp only [FamilyState.book, List.getElem?_map, Option.map_eq_some_iff] at hl
  obtain ⟨s', hs', rfl⟩ := hl
  exact ⟨s', hs', hScope⟩

variable {marks rest : List DeliveryWatermark} {mark : DeliveryWatermark} {control : SecurityControl}

theorem Attempt.Controls.of_controlled (h : a.Controls p marks) (hControlled : Controlled rb a a')
    (hRest : ∀ mark ∈ rest, mark ∈ marks) : a'.Controls p rest where
  active := by
    rw [hControlled.participations, hControlled.now]
    exact h.active
  owned := fun mark hMark hFamily => by
    obtain ⟨s, hSrc, hOwner⟩ := h.owned mark (hRest mark hMark) hFamily
    obtain ⟨s', hSrc', hSame⟩ := hControlled.source hSrc
    exact ⟨s', hSrc', hSame.trans hOwner⟩

theorem Attempt.Controls.open_ (h : a.Controls p marks)
    (hGood : a.Good) (s : DeliverySource β) (hSrc : a.native.sources[p]? = some s) :
    s.isClosed = false := by
  obtain ⟨part, hPart, hActive⟩ := h.active
  by_contra hClosed
  rw [hGood.concluded p s part hSrc hPart (by simpa using hClosed)] at hActive
  cases hActive

section

variable (hGood : a.Good)
include hGood

theorem applyControlWatermark_controlled
    {answer : Attempt α β × Bool} (hControls : a.Controls p (mark :: rest))
    (hApply : applyControlWatermark rb p a mark = .ok answer) :
    Controlled rb a answer.1 ∧ (answer.2 → answer.1.usages = a.usages) := by
  simp only [applyControlWatermark] at hApply
  cases hFamily : mark.family with
  | browser =>
    simp only [hFamily, bind_ok_iff, pure_ok_iff] at hApply
    obtain ⟨applied, hApp, rfl⟩ := hApply
    obtain ⟨hMoves, hRev, hQuiet⟩ := applyBrowserControlWatermark_moves hGood.browser
      (fun s hSrc => by
        obtain ⟨t, hSame, hOwner⟩ := hControls.owned mark (by simp) hFamily
        cases hSame.symm.trans hSrc
        exact hOwner) hApp
    exact ⟨⟨hMoves.reaches_browser hGood hRev a.metadata, rfl, rfl⟩,
      fun hRejected => Prod.ext (hQuiet hRejected).usage rfl⟩
  | native =>
    simp only [hFamily, bind_ok_iff, pure_ok_iff] at hApply
    obtain ⟨applied, hApp, rfl⟩ := hApply
    obtain ⟨hMoves, hKeeps, hQuiet⟩ :=
      applyNativeControlWatermark_moves hGood.native (hControls.open_ hGood) hApp
    exact ⟨⟨hMoves.reaches_native hGood hKeeps a.metadata, rfl, rfl⟩,
      fun hRejected => Prod.ext rfl (hQuiet hRejected).usage⟩

theorem applySecurityControlWatermarks_controlled (hControls : a.Controls p marks)
    (hApply : applySecurityControlWatermarks rb p marks a = .ok a') : Controlled rb a a' := by
  induction marks generalizing a with
  | nil =>
    cases hApply
    exact Controlled.refl hGood
  | cons mark rest ih =>
    obtain ⟨applied, hApp, hRest⟩ := bind_ok hApply
    obtain ⟨hControlled, -⟩ := applyControlWatermark_controlled hGood hControls hApp
    exact hControlled.trans (ih hControlled.good
      (hControls.of_controlled hControlled fun m hm => List.mem_cons_of_mem _ hm) hRest)

theorem latchDeliveryMetadata_controlled
    (hLatch : latchDeliveryMetadata rb a = .ok a') : Controlled rb a a' := by
  refine ⟨(latchDeliveryMetadata_rests hGood hLatch).toReaches, ?_, ?_⟩ <;>
  · simp only [latchDeliveryMetadata, bind_ok_iff, pure_ok_iff] at hLatch
    obtain ⟨browser, -, rfl⟩ := hLatch
    rfl

theorem reserveNativeResetRecords_controlled {resetBytes : Nat}
    (hReserve : reserveNativeResetRecords rb a resetBytes = .ok a') : Controlled rb a a' := by
  simp only [reserveNativeResetRecords] at hReserve
  split at hReserve
  · split at hReserve
    · exact latchDeliveryMetadata_controlled hGood hReserve
    · cases hReserve
    · cases hReserve
      exact ⟨(rests_metadata hGood _).toReaches, rfl, rfl⟩
  · cases hReserve
    exact Controlled.refl hGood

theorem applySecurityControl_controlled
    (hControls : a.Controls control.participation control.watermarks)
    (hApply : applySecurityControl rb a control = .ok a') : Controlled rb a a' := by
  simp only [applySecurityControl] at hApply
  split at hApply
  · cases hApply
    exact Controlled.refl hGood
  obtain ⟨reserved, hReserve, hApply⟩ := bind_ok hApply
  obtain ⟨applied, hApp, hApply⟩ := bind_ok hApply
  obtain ⟨native, hStore, rfl⟩ := bind_pure_ok hApply
  have hResv := reserveNativeResetRecords_controlled hGood hReserve
  have hMark := applySecurityControlWatermarks_controlled hResv.good
    (hControls.of_controlled hResv fun _ hm => hm) hApp
  have hStored : Rests rb applied _ :=
    Quiet.rests_native hMark.good (storeSecurityControl_quiet hStore)
  exact (hResv.trans hMark).trans ⟨hStored.toReaches, rfl, rfl⟩

end

theorem checkControlWatermark_ok {u : Unit}
    (hCheck : checkControlWatermark a p mark = .ok u) (hFamily : mark.family = .browser) :
    ∃ s, a.browser.sources[mark.source]? = some s ∧ s.participation = p := by
  simp only [checkControlWatermark, hFamily, bind_ok_iff, FamilyState.source, found_ok_iff,
    require_ok_iff, decide_eq_true_eq] at hCheck
  obtain ⟨s, hSrc, -, hOwner, -⟩ := hCheck
  exact ⟨s, hSrc, hOwner⟩

/-- A renewed lease leaves the streams of the other Participations alone, and the renewed
Participation's stream is open. -/
theorem renewLease_reaches {lease : Option Instant} (hGood : a.Good)
    (hOpen : ∀ s, a.native.sources[p]? = some s → s.isClosed = false) :
    Reaches rb a (a.renewLease p lease) := by
  cases lease with
  | none => exact Reaches.refl hGood
  | some lease =>
    refine ⟨.refl, .refl, .refl, hGood.browser, hGood.native, ?_, ?_, fun k s part hSrc hPart hClosed => ?_⟩
    · simpa [Attempt.renewLease] using hGood.browser_counters
    · simpa [Attempt.renewLease] using hGood.native_counters
    by_cases hIndex : p = k
    · subst hIndex
      rw [hOpen s hSrc] at hClosed
      cases hClosed
    · simp only [Attempt.renewLease, List.getElem?_modify, hIndex, if_false, id_map'] at hPart
      exact hGood.concluded k s part hSrc hPart hClosed

theorem changeParticipationControl_reaches (hGood : a.Good)
    (hChg : changeParticipationControl rb a control = .ok a') : Reaches rb a a' := by
  obtain ⟨part, hPart, hChg⟩ := bind_ok hChg
  obtain ⟨_, hGuard, hChg⟩ := bind_ok hChg
  obtain ⟨-, -, hChg⟩ := bind_ok hChg
  obtain ⟨_, hSelectors, hChg⟩ := bind_ok hChg
  obtain ⟨applied, hApply, rfl⟩ := bind_pure_ok hChg
  have hControls : a.Controls control.participation control.watermarks :=
    { active := by
        refine ⟨part, found_ok_iff.mp hPart, ?_⟩
        simp only [require_ok_iff, Bool.and_eq_true, Bool.not_eq_true'] at hGuard
        exact hGuard.2
      owned := fun mark hMark hFamily =>
        checkControlWatermark_ok (forM_ok hSelectors mark hMark) hFamily }
  have hControlled := applySecurityControl_controlled hGood hControls hApply
  have hAfter := hControls.of_controlled hControlled fun _ hm => hm
  exact hControlled.toReaches.trans
    (renewLease_reaches hControlled.good (hAfter.open_ hControlled.good))

end Attempts

end Proctor.Delivery
