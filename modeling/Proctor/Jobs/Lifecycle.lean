import Proctor.Jobs.Store

/-! # The life of one Job

What the store's transactions can do to one Job and its attempts, and what that keeps: the attempts
are numbered in the order they were made, the last one is the live one exactly while a worker is at
the Job, and every claim is paid for by the budget or by a relinquished attempt. -/
namespace Proctor.Jobs

open Json ExamPolicy List

/-- What a Job was allowed: the attempts it had made at its last explicit retry, the budget it got
then, and the limits of the reservations granted to it. -/
structure Allowance where
  spentBefore : Nat
  budget : Int
  granted : List Int

structure History where
  job : Job
  attempts : List JobAttempt
  allowance : Allowance

inductive Move : History → History → Prop
  | start {h : History} {job : Job} {a : JobAttempt} (hQueued : h.job.status = .queued)
      (hRoom : h.job.attemptCount < h.job.maximumAttempts) (hStatus : job.status = .running)
      (hCount : job.attemptCount = h.job.attemptCount + 1)
      (hMaximum : job.maximumAttempts = h.job.maximumAttempts)
      (hWork : job.workReserved = h.job.workReserved) (hRevision : h.job.revision < job.revision)
      (hRunning : a.status = .running) (hNumber : a.number = job.attemptCount) :
      Move h { h with job := job, attempts := h.attempts ++ [a] }
  | beat {h : History} {front : List JobAttempt} {a beaten : JobAttempt}
      (hAttempts : h.attempts = front ++ [a]) (hRunning : a.status = .running)
      (hStatus : beaten.status = .running) (hNumber : beaten.number = a.number) :
      Move h { h with attempts := front ++ [beaten] }
  | finish {h : History} {job : Job} {front : List JobAttempt} {a completed : JobAttempt}
      (hActive : h.job.status.active = true) (hAttempts : h.attempts = front ++ [a])
      (hStatus : job.status.active = false) (hCount : job.attemptCount = h.job.attemptCount)
      (hMaximum : job.maximumAttempts = h.job.maximumAttempts +
        if completed.status = .incompatible then 1 else 0)
      (hWork : job.workReserved = h.job.workReserved) (hRevision : h.job.revision < job.revision)
      (hDone : completed.status ≠ .running) (hNumber : completed.number = a.number) :
      Move h { h with job := job, attempts := front ++ [completed] }
  | revise {h : History} {job : Job} (hOpen : h.job.status.terminal = false)
      (hStatus : job.status.active = h.job.status.active)
      (hCount : job.attemptCount = h.job.attemptCount)
      (hMaximum : job.maximumAttempts = h.job.maximumAttempts)
      (hWork : job.workReserved = h.job.workReserved) (hRevision : h.job.revision < job.revision) :
      Move h { h with job := job }
  | reserve {h : History} {job : Job} {limit : Int} (hActive : h.job.status.active = true)
      (hStatus : job.status = h.job.status) (hCount : job.attemptCount = h.job.attemptCount)
      (hMaximum : job.maximumAttempts = h.job.maximumAttempts) (hWork : job.workReserved ≤ limit)
      (hRevision : h.job.revision < job.revision) :
      Move h { h with
        job := job, allowance := { h.allowance with granted := h.allowance.granted ++ [limit] } }

structure Retried (h h' : History) : Prop where
  terminal : h.job.status.terminal = true
  status : h'.job.status = .queued
  count : h'.job.attemptCount = h.job.attemptCount
  maximum : h'.job.maximumAttempts = h.job.attemptCount + 1
  work : h'.job.workReserved = h.job.workReserved
  revision : h.job.revision < h'.job.revision
  attempts : h'.attempts = h.attempts
  allowance : h'.allowance =
    { h.allowance with spentBefore := h.job.attemptCount.toNat, budget := 1 }

def relinquished (attempts : List JobAttempt) : Nat :=
  (attempts.filter fun a => a.status == .incompatible).length

inductive Staffed (h : History) : Prop
  | idle (hIdle : h.job.status.active = false) (hDone : ∀ a ∈ h.attempts, a.status ≠ .running)
      (hSpent : h.allowance.spentBefore ≤ h.attempts.length)
  | live (hActive : h.job.status.active = true) (front : List JobAttempt) (a : JobAttempt)
      (hAttempts : h.attempts = front ++ [a]) (hRunning : a.status = .running)
      (hDone : ∀ x ∈ front, x.status ≠ .running) (hSpent : h.allowance.spentBefore ≤ front.length)

structure Sound (h : History) : Prop where
  numbered : h.attempts.map (·.number) = (List.range h.attempts.length).map fun i : Nat => (i : Int) + 1
  count : h.job.attemptCount = h.attempts.length
  within : h.job.attemptCount ≤ h.job.maximumAttempts
  paid : h.job.maximumAttempts = h.allowance.spentBefore + h.allowance.budget +
    relinquished (h.attempts.drop h.allowance.spentBefore)
  reserved : h.job.workReserved ≤ h.allowance.granted.getLast?.getD 0
  staffed : Staffed h

section
variable {h h' : History}

theorem Sound.live (hSound : Sound h) {a : JobAttempt} (ha : a ∈ h.attempts)
    (hRun : a.status = .running) : h.job.status.active ∧ ∃ front, h.attempts = front ++ [a] := by
  cases hSound.staffed with
  | idle _ hDone _ => exact absurd hRun (hDone a ha)
  | live hActive front last hAtts _ hDone _ =>
    refine ⟨hActive, front, ?_⟩
    rw [hAtts, mem_append, mem_singleton] at ha
    obtain hFront | rfl := ha
    · exact absurd hRun (hDone a hFront)
    · exact hAtts

theorem Sound.spent_le (hSound : Sound h) : h.allowance.spentBefore ≤ h.attempts.length := by
  cases hSound.staffed with
  | idle _ _ hSpent => exact hSpent
  | live _ front a hAtts _ _ hSpent =>
    rw [hAtts, length_append]
    exact hSpent.trans (Nat.le_add_right _ _)

/-- The attempts of a Job since its last explicit retry that kept their claim slot are at most the
budget it got then. -/
theorem Sound.consumed_le (hSound : Sound h) :
    ((((h.attempts.drop h.allowance.spentBefore).filter fun a => a.status != .incompatible).length : Nat)
      : Int) ≤ h.allowance.budget := by
  have hSplit := length_eq_length_filter_add (l := h.attempts.drop h.allowance.spentBefore)
    fun a => a.status == .incompatible
  have hPaid := hSound.paid
  have hCount := hSound.count
  have hWithin := hSound.within
  have hSpent := hSound.spent_le
  unfold relinquished at hPaid
  rw [length_drop] at hSplit
  unfold bne
  omega

theorem Sound.active_iff (hSound : Sound h) : h.job.status.active ↔
    (h.attempts.filter fun a => a.status == .running).length = 1 := by
  cases hSound.staffed with
  | idle hIdle hDone _ =>
    have hNone : (h.attempts.filter fun a => a.status == .running) = [] :=
      filter_eq_nil_iff.mpr fun a ha => by simpa using hDone a ha
    rw [hIdle, hNone]
    decide
  | live hActive front a hAtts hRun hDone _ =>
    have hNone : (front.filter fun a => a.status == .running) = [] :=
      filter_eq_nil_iff.mpr fun x hx => by simpa using hDone x hx
    rw [hActive, hAtts, filter_append, hNone]
    simp [hRun]

theorem relinquished_append_singleton (attempts : List JobAttempt) (a : JobAttempt) :
    relinquished (attempts ++ [a]) =
      relinquished attempts + if a.status = .incompatible then 1 else 0 := by
  unfold relinquished
  by_cases ha : a.status = .incompatible <;> simp [ha]

theorem numbered_append {attempts : List JobAttempt} {a : JobAttempt}
    (hNumbered : attempts.map (·.number) = (List.range attempts.length).map fun i : Nat => (i : Int) + 1)
    (ha : a.number = attempts.length + 1) : (attempts ++ [a]).map (·.number) =
      (List.range (attempts ++ [a]).length).map fun i : Nat => (i : Int) + 1 := by
  rw [map_append, hNumbered, length_append, length_singleton, range_succ,
    map_append, map_singleton, map_singleton, ha]

theorem Sound.front (hSound : Sound h) {front : List JobAttempt} {a : JobAttempt}
    (hActive : h.job.status.active) (hAtts : h.attempts = front ++ [a]) :
    (∀ x ∈ front, x.status ≠ .running) ∧ h.allowance.spentBefore ≤ front.length := by
  cases hSound.staffed with
  | idle hIdle _ _ => rw [hIdle] at hActive; cases hActive
  | live _ front' a' hAtts' _ hDone hSpent =>
    obtain ⟨rfl, -⟩ := append_inj' (hAtts.symm.trans hAtts') rfl
    exact ⟨hDone, hSpent⟩

theorem Sound.numbered_replace (hSound : Sound h) {front : List JobAttempt} {a new : JobAttempt}
    (hAtts : h.attempts = front ++ [a]) (hNum : new.number = a.number) :
    (front ++ [new]).map (·.number) =
      (List.range (front ++ [new]).length).map fun i : Nat => (i : Int) + 1 := by
  have hNumbered := hSound.numbered
  rw [hAtts] at hNumbered
  simpa only [map_append, map_singleton, hNum, length_append, length_singleton] using hNumbered

theorem Move.sound (hMove : Move h h') (hSound : Sound h) : Sound h' := by
  have hCounted := hSound.count
  have hPaid := hSound.paid
  cases hMove with
  | @start job a hQueued hRoom hStat hCount hMax hWork _ hRun hNum =>
    have hIdle : h.job.status.active = false := by rw [hQueued]; rfl
    cases hSound.staffed with
    | live hActive => rw [hIdle] at hActive; cases hActive
    | idle _ hDone hSpent =>
      refine ⟨numbered_append hSound.numbered (by omega), ?_, ?_, ?_, hWork ▸ hSound.reserved,
        .live (by rw [hStat]; rfl) h.attempts a rfl hRun hDone hSpent⟩
      · rw [hCount, length_append, length_singleton]
        omega
      · show job.attemptCount ≤ job.maximumAttempts
        omega
      · have hKept : (h.attempts ++ [a]).drop h.allowance.spentBefore =
            h.attempts.drop h.allowance.spentBefore ++ [a] := drop_append_of_le_length hSpent
        have hNot : ¬a.status = .incompatible := by rw [hRun]; decide
        rw [hKept, relinquished_append_singleton, if_neg hNot, hMax, hPaid]
        rfl
  | @beat front a beaten hAtts hRun hStat hNum =>
    obtain ⟨hActive, -⟩ := hSound.live (a := a) (by simp [hAtts]) hRun
    obtain ⟨hDone, hSpent⟩ := hSound.front hActive hAtts
    refine ⟨hSound.numbered_replace hAtts hNum, ?_, hSound.within, ?_, hSound.reserved,
      .live hActive front beaten rfl hStat hDone hSpent⟩
    · rw [hCounted, hAtts, length_append, length_append]
      rfl
    rw [hAtts, drop_append_of_le_length hSpent, relinquished_append_singleton] at hPaid
    rw [drop_append_of_le_length hSpent, relinquished_append_singleton, hPaid, hRun, hStat]
  | @finish job front a completed hActive hAtts hStat hCount hMax hWork _ hDone hNum =>
    obtain ⟨hFrontDone, hSpent⟩ := hSound.front hActive hAtts
    have hRun : a.status = .running := by
      cases hSound.staffed with
      | idle hIdle => rw [hIdle] at hActive; cases hActive
      | live _ front' a' hAtts' hRun' =>
        obtain ⟨-, hSame⟩ := append_inj' (hAtts.symm.trans hAtts') rfl
        rw [(List.cons.inj hSame).1, hRun']
    have hNot : ¬a.status = .incompatible := by rw [hRun]; decide
    have hWithin := hSound.within
    refine ⟨hSound.numbered_replace hAtts hNum, ?_, ?_, ?_, hWork ▸ hSound.reserved,
      .idle hStat ?_ ?_⟩
    · rw [hCount, hCounted, hAtts, length_append, length_append]
      rfl
    · rw [hCount, hMax]
      split <;> omega
    · rw [hAtts, drop_append_of_le_length hSpent, relinquished_append_singleton,
        if_neg hNot] at hPaid
      rw [drop_append_of_le_length hSpent, relinquished_append_singleton, hMax, hPaid]
      split
      · simp
        omega
      · simp
    · intro x hx
      rw [mem_append, mem_singleton] at hx
      obtain hFront | rfl := hx
      · exact hFrontDone x hFront
      · exact hDone
    · rw [length_append]
      exact hSpent.trans (Nat.le_add_right _ _)
  | @revise job hOpen hStat hCount hMax hWork _ =>
    refine ⟨hSound.numbered, hCount.trans hCounted, ?_, hMax.trans hPaid, hWork ▸ hSound.reserved, ?_⟩
    · rw [hCount, hMax]
      exact hSound.within
    cases hSound.staffed with
    | idle hIdle hDone hSpent => exact .idle (hStat.trans hIdle) hDone hSpent
    | live hActive front a hAtts hRun hDone hSpent =>
      exact .live (hStat.trans hActive) front a hAtts hRun hDone hSpent
  | @reserve job limit hActive hStat hCount hMax hWork _ =>
    refine ⟨hSound.numbered, hCount.trans hCounted, ?_, hMax.trans hPaid, ?_, ?_⟩
    · rw [hCount, hMax]
      exact hSound.within
    · rw [getLast?_append_of_ne_nil _ (cons_ne_nil _ _)]
      exact hWork
    · cases hSound.staffed with
      | idle hIdle => rw [hIdle] at hActive; cases hActive
      | live hActive front a hAtts hRun hDone hSpent =>
        exact .live (by rw [hStat]; exact hActive) front a hAtts hRun hDone hSpent

theorem Retried.sound (hRetry : Retried h h') (hSound : Sound h) : Sound h' := by
  have hCount := hSound.count
  have hIdle : h.job.status.active = false := by
    have hTerm := hRetry.terminal
    cases hStat : h.job.status <;> rw [hStat] at hTerm <;> first | rfl | cases hTerm
  have hSpent : h.job.attemptCount.toNat = h.attempts.length := by omega
  refine ⟨by rw [hRetry.attempts]; exact hSound.numbered, ?_, ?_, ?_, ?_, ?_⟩
  · rw [hRetry.count, hRetry.attempts, hCount]
  · rw [hRetry.count, hRetry.maximum]
    omega
  · rw [hRetry.maximum, hRetry.allowance, hRetry.attempts, hSpent, hCount]
    simp [relinquished]
  · rw [hRetry.work, hRetry.allowance]
    exact hSound.reserved
  · cases hSound.staffed with
    | live hActive => rw [hIdle] at hActive; cases hActive
    | idle _ hDone _ =>
      refine .idle (by rw [hRetry.status]; rfl) (by rw [hRetry.attempts]; exact hDone) ?_
      rw [hRetry.allowance, hRetry.attempts, hSpent]

theorem Move.revision (hMove : Move h h') : h'.job = h.job ∨ h.job.revision < h'.job.revision := by
  cases hMove with
  | beat => exact .inl rfl
  | start _ _ _ _ _ _ hRev | finish _ _ _ _ _ _ hRev | revise _ _ _ _ _ hRev
  | reserve _ _ _ _ _ hRev => exact .inr hRev

theorem JobStatus.terminal_of_active {status : JobStatus} (hActive : status.active) :
    status.terminal = false := by
  cases status <;> first | rfl | cases hActive

theorem Move.terminal (hMove : Move h h') (hTerm : h.job.status.terminal) : h'.job = h.job := by
  cases hMove with
  | beat => rfl
  | start hQueued => rw [hQueued] at hTerm; cases hTerm
  | finish hActive | reserve hActive => rw [JobStatus.terminal_of_active hActive] at hTerm; cases hTerm
  | revise hOpen => rw [hOpen] at hTerm; cases hTerm

abbrev Moves : History → History → Prop := Relation.ReflTransGen Move

theorem Moves.sound (hMoves : Moves h h') (hSound : Sound h) : Sound h' := by
  induction hMoves with
  | refl => exact hSound
  | tail _ hMove ih => exact hMove.sound ih

theorem Moves.revision (hMoves : Moves h h') : h'.job = h.job ∨ h.job.revision < h'.job.revision := by
  induction hMoves with
  | refl => exact .inl rfl
  | tail _ hMove ih =>
    obtain hSame | hLess := ih
    · rw [← hSame]
      exact hMove.revision
    obtain hKept | hMore := hMove.revision
    · exact .inr (by rw [hKept]; exact hLess)
    · exact .inr (hLess.trans hMore)

theorem Moves.terminal (hMoves : Moves h h') (hTerm : h.job.status.terminal) :
    h'.job = h.job := by
  induction hMoves with
  | refl => rfl
  | tail _ hMove ih => rw [← ih] at hTerm; exact (hMove.terminal hTerm).trans ih

end

structure Fresh (h : History) : Prop where
  status : h.job.status = .queued
  count : h.job.attemptCount = 0
  maximum : 0 ≤ h.job.maximumAttempts
  work : h.job.workReserved = 0
  attempts : h.attempts = []
  allowance : h.allowance = ⟨0, h.job.maximumAttempts, []⟩

theorem Fresh.sound {h : History} (hFresh : Fresh h) : Sound h := by
  refine ⟨?_, ?_, ?_, ?_, ?_, .idle ?_ ?_ ?_⟩
  · rw [hFresh.attempts]
    rfl
  · rw [hFresh.attempts, hFresh.count]
    rfl
  · rw [hFresh.count]
    exact hFresh.maximum
  · rw [hFresh.allowance, hFresh.attempts]
    simp [relinquished]
  · rw [hFresh.work, hFresh.allowance]
    exact le_rfl
  · rw [hFresh.status]
    rfl
  · rw [hFresh.attempts]
    exact fun a ha => absurd ha not_mem_nil
  · rw [hFresh.allowance]
    exact Nat.zero_le _

end Proctor.Jobs
