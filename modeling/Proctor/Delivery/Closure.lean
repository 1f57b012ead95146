import Proctor.Delivery.Lifecycle
import Proctor.Fallible.Basic

/-! # A closure over all calls

A source is closed once, and its final position is fixed once, by a declaration of the client or by
the expiry of the upload. Nothing that a call fixed is changed by a later one, in whatever order the
calls come and whatever their clocks say. All calls on a source are of its family, native or not. -/

namespace Proctor.Delivery

open ExamPolicy Fallible Option DeliveryClosure
open Bool (and_eq_true not_eq_false not_eq_true' or_eq_true)

inductive ClosureCall where
  | close (reason : DeliveryCloseReason) (known : Int) (instant : Instant) (retirement : Option Instant)
  | declareFinal (revision allocated : Int) (summaryOnly : Bool) (request : FinalDeliveryDeclaration)
      (instant : Instant)
  | expire (instant : Instant)

def ClosureCall.apply (native : Bool) (c : DeliveryClosure) : ClosureCall → Except Fault DeliveryClosure
  | .close reason known instant retirement => c.close native reason known instant retirement
  | .declareFinal revision allocated summaryOnly request instant =>
    Prod.fst <$> c.declareFinal native revision allocated summaryOnly request instant
  | .expire instant => c.expire native instant

def ClosureCall.perform (native : Bool) (c : DeliveryClosure) (call : ClosureCall) : DeliveryClosure :=
  match call.apply native c with
  | .ok next => next
  | .error _ => c

/-- The upload of a source closed by the call does not expire at the zero time. -/
def ClosureCall.Dated : ClosureCall → Prop
  | .close _ _ instant _ => instant + day ≠ 0
  | _ => True

namespace DeliveryClosure

variable {native : Bool} {c next : DeliveryClosure} {instant : Instant}

/-- What `Close` fixes. -/
def facts (c : DeliveryClosure) : Option Instant × Option DeliveryCloseReason × Option Int × Option Instant :=
  (c.closedAt, c.closeReason, c.knownAtClose, c.uploadExpiresAt)

/-- What fixes the final position. -/
def outcome (c : DeliveryClosure) : Option Int × Option Text × Option FinalBoundaryOrigin :=
  (c.finalSequence, c.finalDeclarationID, c.finalBoundaryOrigin)

structure Follows (native : Bool) (c next : DeliveryClosure) : Prop where
  valid : c.validate native = true → next.validate native = true
  facts : c.closedAt ≠ none → next.facts = c.facts
  outcome : c.finalSequence ≠ none → next.outcome = c.outcome

theorem Follows.refl (c : DeliveryClosure) : Follows native c c := ⟨id, fun _ => rfl, fun _ => rfl⟩

theorem Follows.trans {last : DeliveryClosure} (h : Follows native c next)
    (hNext : Follows native next last) : Follows native c last where
  valid := hNext.valid ∘ h.valid
  facts hClosed := by
    have hSame := h.facts hClosed
    have hKept : next.closedAt = c.closedAt := congrArg Prod.fst hSame
    rw [← hSame]
    exact hNext.facts (hKept ▸ hClosed)
  outcome hFinal := by
    have hSame := h.outcome hFinal
    have hKept : next.finalSequence = c.finalSequence := congrArg Prod.fst hSame
    rw [← hSame]
    exact hNext.outcome (hKept ▸ hFinal)

theorem validate_closed {closedAt : Instant} (hValid : c.validate native)
    (hClosed : c.closedAt = some closedAt) :
    ∃ reason known expires, c.closeReason = some reason ∧ c.knownAtClose = some known ∧
      c.uploadExpiresAt = some expires ∧ ∀ final, c.finalSequence = some final → known ≤ final := by
  simp only [validate, hClosed] at hValid
  split at hValid
  next reason known expires hReason hKnown hExp =>
    refine ⟨reason, known, expires, hReason, hKnown, hExp, fun final hFinal => ?_⟩
    simp only [hFinal, and_eq_true, not_eq_true', decide_eq_false_iff_not, not_lt] at hValid
    exact hValid.2.1.2
  · cases hValid

theorem close_follows {reason : DeliveryCloseReason} {known : Int} {retirement : Option Instant}
    (hDated : instant + day ≠ 0) (h : c.close native reason known instant retirement = .ok next) :
    Follows native c next := by
  obtain ⟨hArgs, h⟩ := guard_ok h
  split at h
  next hClosed =>
    cases h
    exact .refl c
  next hOpen =>
    obtain ⟨hRetirement, h⟩ := guard_ok h
    cases h
    simp only [or_eq_true, not_eq_true', not_or, not_eq_false] at hArgs
    obtain ⟨⟨⟨hValid, hReason⟩, hKnown⟩, hInstant⟩ := hArgs
    have hNone : c.closedAt = none := by simpa using hOpen
    have hFinal : c.finalSequence = none := by
      simp only [validate, hNone, and_eq_true, isNone_iff_eq_none] at hValid
      exact hValid.1.1.1.1.2
    refine ⟨fun _ => ?_, absurd hNone, absurd hFinal⟩
    have hExp : ∀ expires, retirement.elim (instant + day) (fun r => min r (instant + day)) = expires →
        expires ≠ 0 ∧ expires ≤ instant + day := by
      rintro _ rfl
      cases retirement with
      | none => exact ⟨hDated, le_rfl⟩
      | some r =>
        have hNonzero : r ≠ 0 := by simpa using hRetirement
        refine ⟨?_, min_le_right r (instant + day)⟩
        rw [elim_some]
        rcases min_choice r (instant + day) with hMin | hMin
        · rwa [hMin]
        · rwa [hMin]
    obtain ⟨hNonzero, hLate⟩ := hExp _ rfl
    simp [validate, opened, hInstant, hReason, hKnown, hNonzero, hLate]

theorem declareFinal_follows {revision allocated : Int} {summaryOnly : Bool}
    {request : FinalDeliveryDeclaration} {placed : DeliveryClosure × Int}
    (h : c.declareFinal native revision allocated summaryOnly request instant = .ok placed) :
    Follows native c placed.1 ∧ c.finalSequence = none ∧ placed.1.finalSequence = some request.finalSequence ∧
      ∃ known expires, c.knownAtClose = some known ∧ c.uploadExpiresAt = some expires ∧ instant < expires ∧
        known ≤ request.finalSequence ∧ allocated ≤ request.finalSequence ∧
        request.finalSequence - known ≤ receiveWindow native := by
  obtain ⟨hArgs, h⟩ := guard_ok h
  obtain ⟨hClosed, h⟩ := guard_ok h
  obtain ⟨hExpired, h⟩ := guard_ok h
  obtain ⟨hFresh, h⟩ := guard_ok h
  obtain ⟨hWin, h⟩ := guard_ok h
  cases h
  simp only [or_eq_true, not_eq_true', not_or, not_eq_false, and_eq_true,
    FinalDeliveryDeclaration.validate] at hArgs
  obtain ⟨⟨⟨⟨hValid, ⟨hID, -⟩, hSafe⟩, -⟩, -⟩, -⟩ := hArgs
  obtain ⟨closedAt, hClosed⟩ := ne_none_iff_exists'.mp (by simpa using hClosed)
  simp only [or_eq_true, bne_iff_ne, decide_eq_true_eq, not_or, not_lt, not_not, Bool.not_eq_true,
    isSome_eq_false_iff, isNone_iff_eq_none, gt_iff_lt] at hFresh hWin
  obtain ⟨⟨⟨hFinal, -⟩, hAlloc⟩, hLow⟩ := hFresh
  obtain ⟨reason, known, expires, hReason, hKnown, hExp, -⟩ := validate_closed hValid hClosed
  simp only [hKnown, getD_some] at hLow hWin
  simp only [isExpired, hExp, any_some, not_eq_true', decide_eq_false_iff_not, not_not] at hExpired
  refine ⟨⟨fun _ => ?_, fun _ => rfl, absurd hFinal⟩, hFinal, rfl, known, expires, hKnown, hExp, hExpired,
    hLow, hAlloc, hWin.1⟩
  simp only [validate, hClosed, hReason, hKnown, hExp, and_eq_true] at hValid ⊢
  simp only [hValid.1, hSafe, hID, any_some]
  simpa using hLow

theorem expire_follows (h : c.expire native instant = .ok next) :
    Follows native c next ∧ (c.isExpired instant → next.finalSequence ≠ none) := by
  obtain ⟨hArgs, h⟩ := guard_ok h
  simp only [or_eq_true, not_eq_true', not_or, not_eq_false] at hArgs
  split at h
  next hEarly =>
    cases h
    refine ⟨.refl c, fun hExpired => ?_⟩
    have hOpen : c.closedAt = none := by simpa [hExpired] using hEarly
    have hValid := hArgs.1
    simp only [validate, hOpen, and_eq_true, isNone_iff_eq_none] at hValid
    simp [isExpired, hValid.2] at hExpired
  next hDue =>
    split at h
    next hFinal =>
      cases h
      exact ⟨.refl c, fun _ => isSome_iff_ne_none.mp hFinal⟩
    next hFinal =>
      cases h
      obtain ⟨closedAt, hClosed⟩ : ∃ closedAt, c.closedAt = some closedAt := by
        rw [← isSome_iff_exists]
        simp only [or_eq_true, not_or, Bool.not_eq_true, isNone_eq_false_iff] at hDue
        exact hDue.1
      have hNone : c.finalSequence = none := by simpa using hFinal
      obtain ⟨reason, known, expires, hReason, hKnown, hExp, -⟩ := validate_closed hArgs.1 hClosed
      refine ⟨⟨fun hValid => ?_, fun _ => rfl, absurd hNone⟩, fun _ => by simp [hKnown]⟩
      simp only [validate, hClosed, hReason, hKnown, hExp, hNone, and_eq_true] at hValid ⊢
      simp [hValid]

end DeliveryClosure

theorem ClosureCall.perform_follows (native : Bool) (c : DeliveryClosure) {call : ClosureCall}
    (hDated : call.Dated) : Follows native c (perform native c call) := by
  unfold perform
  split
  next next hApply =>
    cases call with
    | close => exact close_follows hDated hApply
    | declareFinal revision allocated summaryOnly request instant =>
      simp only [apply] at hApply
      cases hPlaced : c.declareFinal native revision allocated summaryOnly request instant with
      | error => simp [hPlaced] at hApply
      | ok placed =>
        rw [hPlaced] at hApply
        cases hApply
        exact (declareFinal_follows hPlaced).1
    | expire => exact (expire_follows hApply).1
  · exact .refl c

theorem ClosureCall.run_follows (native : Bool) (c : DeliveryClosure) {calls : List ClosureCall}
    (hDated : ∀ call ∈ calls, call.Dated) : Follows native c (calls.foldl (perform native) c) := by
  induction calls generalizing c with
  | nil => exact .refl c
  | cons call rest ih =>
    obtain ⟨hFirst, hRest⟩ := List.forall_mem_cons.mp hDated
    exact (perform_follows native c hFirst).trans (ih _ hRest)

/-- A source closed a day before the zero time has no valid closure. -/
theorem closure_a_day_before_zero :
    (ClosureCall.perform true .opened (.close .submission 0 (-day) none)).validate true = false := by
  decide

theorem closure_facts_are_final (native : Bool) (calls later : List ClosureCall)
    (hDated : ∀ call ∈ calls ++ later, call.Dated) :
    let c := calls.foldl (ClosureCall.perform native) .opened
    let next := later.foldl (ClosureCall.perform native) c
    c.validate native = true ∧ (c.closedAt ≠ none → next.facts = c.facts) ∧
    (c.finalSequence ≠ none → next.outcome = c.outcome) ∧
    (∀ final known, c.finalSequence = some final → c.knownAtClose = some known → known ≤ final) ∧
    (∀ revision allocated summaryOnly request instant placed,
      c.declareFinal native revision allocated summaryOnly request instant = .ok placed →
      c.finalSequence = none ∧ placed.1.finalSequence = some request.finalSequence ∧
      ∃ known expires, c.knownAtClose = some known ∧ c.uploadExpiresAt = some expires ∧ instant < expires ∧
        known ≤ request.finalSequence ∧ allocated ≤ request.finalSequence ∧
        request.finalSequence - known ≤ receiveWindow native ∧
        (known ≤ allocated → request.finalSequence - allocated ≤ receiveWindow native)) ∧
    ∀ instant expired, c.expire native instant = .ok expired → c.isExpired instant = true →
      ∀ more : List ClosureCall, (∀ call ∈ more, call.Dated) →
        ∀ revision allocated summaryOnly request instant placed,
          (more.foldl (ClosureCall.perform native) expired).declareFinal native revision allocated summaryOnly
            request instant ≠ .ok placed := by
  intro c next
  obtain ⟨hCalls, hLater⟩ := List.forall_mem_append.mp hDated
  have hValid : c.validate native = true := (ClosureCall.run_follows native .opened hCalls).valid rfl
  have hFollows := ClosureCall.run_follows native c hLater
  refine ⟨hValid, hFollows.facts, hFollows.outcome, ?_, ?_, ?_⟩
  · intro final known hFinal hKnown
    cases hClosed : c.closedAt with
    | none => simp [DeliveryClosure.validate, hClosed, hKnown] at hValid
    | some closedAt =>
      obtain ⟨_, _, _, _, hSame, _, hLow⟩ := DeliveryClosure.validate_closed hValid hClosed
      exact Option.some.inj (hKnown.symm.trans hSame) ▸ hLow final hFinal
  · intro revision allocated summaryOnly request instant placed hPlaced
    obtain ⟨-, hFresh, hFinal, known, expires, hKnown, hExp, hTime, hLow, hAlloc, hWin⟩ :=
      DeliveryClosure.declareFinal_follows hPlaced
    exact ⟨hFresh, hFinal, known, expires, hKnown, hExp, hTime, hLow, hAlloc, hWin, fun _ => by omega⟩
  · intro instant expired hExpire hDue more hMore _ _ _ _ _ placed hPlaced
    have hFixed := (DeliveryClosure.expire_follows hExpire).2 hDue
    have hSame := (ClosureCall.run_follows native expired hMore).outcome hFixed
    have hKept : (more.foldl (ClosureCall.perform native) expired).finalSequence = expired.finalSequence :=
      congrArg Prod.fst hSame
    exact hFixed (hKept ▸ (DeliveryClosure.declareFinal_follows hPlaced).2.1)

theorem closure_facts_are_final_expired :
    let close := ClosureCall.close .submission 3 1 none
    let declare := ClosureCall.declareFinal 0 4 false ⟨"final-1", 0, 5⟩ 2
    let expire := ClosureCall.expire (1 + day)
    let c := [close, declare].foldl (ClosureCall.perform true) .opened
    (∀ call ∈ [close, declare] ++ [expire], call.Dated) ∧ c.validate true = true ∧ c.finalSequence = some 5 ∧
      (ClosureCall.perform true c expire).facts = c.facts ∧
      (ClosureCall.perform true c expire).outcome = c.outcome := by
  intro close declare expire c
  have hDated : ∀ call ∈ [close, declare] ++ [expire], call.Dated := by
    simp [close, declare, expire, ClosureCall.Dated, day]
  have hClosed : c.closedAt ≠ none := by decide
  have hDeclared : c.finalSequence = some 5 := by decide
  have hFinal := closure_facts_are_final true [close, declare] [expire] hDated
  have hSet : c.finalSequence ≠ none := hDeclared ▸ Option.some_ne_none 5
  exact ⟨hDated, hFinal.1, hDeclared, hFinal.2.1 hClosed, hFinal.2.2.1 hSet⟩

end Proctor.Delivery
