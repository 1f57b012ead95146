import Proctor.Jobs.Lifecycle

/-! # Runs of the Job store

Every transaction takes each Job along moves of its life, creates it, or retries it on an
operator's request. What those moves keep therefore holds of every Job after any interleaving of
the operations, whichever workers present them and whenever they run. -/
namespace Proctor.Jobs

open Json ExamPolicy Keyed Fallible List Function Table Except

structure JobSystem where
  tables : JobTables
  allowances : Text → Allowance

def JobSystem.initial : JobSystem := ⟨.empty, fun _ => ⟨0, 0, []⟩⟩

def account (t : JobTables) (allowances : Text → Allowance) (operation : Operation) (answer : Answer) :
    Text → Allowance :=
  match operation with
  | .enqueue job => match answer with
    | .enqueued _ true => Function.update allowances job.id ⟨0, job.maximumAttempts, []⟩
    | _ => allowances
  | .retry input => match answer with
    | .job j => Function.update allowances input.id
        { allowances input.id with spentBefore := j.attemptCount.toNat, budget := 1 }
    | _ => allowances
  | .reserveWork input => match answer, t.attempts.find input.attemptID with
    | .reservation true _, some a => Function.update allowances a.jobID
        { allowances a.jobID with granted := (allowances a.jobID).granted ++ [input.limit] }
    | _, _ => allowances
  | .claimNext _ _ | .heartbeat _ | .checkpoint _ | .complete _ | .cancel _ => allowances

def JobSystem.step (jsonValid : Bytes → Bool) (s : JobSystem) (r : Request) : JobSystem :=
  match r.operation.execute jsonValid s.tables r.now with
  | .error _ => s
  | .ok (answer, tables) =>
    if r.commits then ⟨tables, account s.tables s.allowances r.operation answer⟩ else s

def JobSystem.history (s : JobSystem) (id : Text) : Option History :=
  (s.tables.jobs.find id).map fun j => ⟨j, s.tables.attemptsOf id, s.allowances id⟩

structure JobSystem.Sound (s : JobSystem) : Prop where
  each : ∀ id h, s.history id = some h → Jobs.Sound h
  owned : ∀ a ∈ s.tables.attempts.rows, (s.tables.jobs.find a.jobID).isSome = true

/-- What one transaction does to the history of one Job. -/
inductive Passes (operation : Operation) (id : Text) : Option History → Option History → Prop
  | moved {before after : Option History} (hMoves : Option.Rel Moves before after) :
      Passes operation id before after
  | retried {before after : History} {input : JobMutation} (hOperation : operation = .retry input)
      (hID : input.id = id) (hRetried : Retried before after) :
      Passes operation id (some before) (some after)
  | created {after : History} (hFresh : Fresh after) : Passes operation id none (some after)

structure Follows (how : Text → Option History → Option History → Prop) (s s' : JobSystem) : Prop where
  each : ∀ id, how id (s.history id) (s'.history id)
  owned : ∀ a ∈ s'.tables.attempts.rows, (s'.tables.jobs.find a.jobID).isSome = true

abbrev Advances : JobSystem → JobSystem → Prop := Follows fun _ => Option.Rel Moves

abbrev Effect (operation : Operation) : JobSystem → JobSystem → Prop := Follows (Passes operation)

theorem moves_refl (h : Option History) : Option.Rel Moves h h := by
  cases h with
  | none => exact .none
  | some h => exact .some .refl

theorem moves_trans {a b c : Option History} (h : Option.Rel Moves a b) (h' : Option.Rel Moves b c) :
    Option.Rel Moves a c := by
  cases h with
  | none => exact h'
  | some h =>
    cases h' with
    | some h' => exact .some (h.trans h')

section
variable {s s' s'' : JobSystem} {t t' : JobTables} {allowances : Text → Allowance} {id : Text}

theorem history_eq_some_iff {h : History} : s.history id = some h ↔ s.tables.jobs.find id = some h.job ∧
      h.attempts = s.tables.attemptsOf id ∧ h.allowance = s.allowances id := by
  unfold JobSystem.history
  constructor
  · intro hHistory
    obtain ⟨j, hFind, rfl⟩ := Option.map_eq_some_iff.mp hHistory
    exact ⟨hFind, rfl, rfl⟩
  · rintro ⟨hFind, hAtts, hCredit⟩
    rw [hFind, Option.map_some, ← hAtts, ← hCredit]

variable {j : Job}

theorem history_of_find (hFind : s.tables.jobs.find id = some j) :
    s.history id = some ⟨j, s.tables.attemptsOf id, s.allowances id⟩ :=
  history_eq_some_iff.mpr ⟨hFind, rfl, rfl⟩

theorem history_congr (hJob : s'.tables.jobs.find id = s.tables.jobs.find id)
    (hAtts : s'.tables.attemptsOf id = s.tables.attemptsOf id)
    (hCredit : s'.allowances id = s.allowances id) : s'.history id = s.history id := by
  unfold JobSystem.history
  rw [hJob, hAtts, hCredit]

theorem Advances.effect (h : Advances s s') (operation : Operation) : Effect operation s s' :=
  ⟨fun id => .moved (h.each id), h.owned⟩

theorem Advances.trans (h : Advances s s') (h' : Advances s' s'') : Advances s s'' :=
  ⟨fun id => moves_trans (h.each id) (h'.each id), h'.owned⟩

theorem Advances.refl (hSound : s.Sound) : Advances s s := ⟨fun _ => moves_refl _, hSound.owned⟩

theorem Effect.sound {operation : Operation} (h : Effect operation s s') (hSound : s.Sound) : s'.Sound where
  each id after hAfter := by
    have hBefore := hSound.each id
    have hHow := h.each id
    rw [hAfter] at hHow
    generalize s.history id = before at hBefore hHow
    cases hHow with
    | moved hMoves =>
      cases hMoves with
      | some hMoves => exact hMoves.sound (hBefore _ rfl)
    | retried _ _ hRetry => exact hRetry.sound (hBefore _ rfl)
    | created hFresh => exact hFresh.sound
  owned := h.owned

/-! ### What the statements write -/

variable {row : Job} {token attemptID : Text} {a new : JobAttempt} {front attempts : List JobAttempt}
  {input : JobCompletion} {request : JobClaimRequest}

theorem updateJob_ok (h : updateJob t j = .ok t') (hFind : t.jobs.find j.id = some row)
    (hRow : updatedRow row j = j) : t' = { t with jobs := t.jobs.set j } := by
  simp only [updateJob, hFind, guard_ok_iff, hRow] at h
  exact (ok.inj h.2.2).symm

theorem reportAs_ok {α : Type} {fault : Fault} {value : Except Fault α} {a : α}
    (h : reportAs fault value = .ok a) : value = .ok a := by
  cases value with
  | ok b => exact h
  | error _ => cases h

variable {jsonValid : Bytes → Bool}

theorem persistedJob_ok {j' : Job} (h : persistedJob jsonValid j = .ok j') : j' = j := by
  obtain ⟨-, -, hSame⟩ := bind_ok h
  exact (ok.inj hSame).symm

theorem getJob_ok (h : getJob jsonValid t id = .ok j) : t.jobs.find id = some j := by
  replace h := past_guard h
  split at h
  · cases h
  · next row hFind => rw [hFind, persistedJob_ok h]

variable {now : Instant}

theorem getFencedAttempt_ok (h : getFencedAttempt t id token now = .ok a) :
    t.attempts.find id = some a ∧ a.claimToken = token ∧ a.status = .running ∧
      timeUTC now < a.leaseExpiresAt := by
  unfold getFencedAttempt at h
  split at h
  · cases h
  next row hFind =>
  obtain ⟨-, -, h⟩ := bind_ok h
  obtain ⟨hGuard, hSame⟩ := guard_ok h
  cases hSame
  simp only [Bool.or_eq_true, bne_iff_ne, decide_eq_true_eq, not_or, ne_eq, not_not, not_le] at hGuard
  exact ⟨hFind, hGuard.1.1, hGuard.1.2, hGuard.2⟩

theorem mem_attemptsOf : a ∈ t.attemptsOf id ↔ a ∈ t.attempts.rows ∧ a.jobID = id := by
  simp [JobTables.attemptsOf]

section

variable (hFind : t.attempts.find new.id = some a) (hJob : new.jobID = a.jobID)
include hFind hJob

theorem attemptsOf_set (id : Text) :
    { t with attempts := t.attempts.set new : JobTables }.attemptsOf id =
      (t.attemptsOf id).map fun x => if x.id = new.id then new else x :=
  filter_set hFind (by rw [hJob])

theorem attemptsOf_set_of_ne (hNe : id ≠ a.jobID) :
    { t with attempts := t.attempts.set new : JobTables }.attemptsOf id = t.attemptsOf id := by
  rw [attemptsOf_set hFind hJob]
  conv_rhs => rw [← map_id (t.attemptsOf id)]
  refine map_congr_left fun x hx => ?_
  obtain ⟨hRow, hOwner⟩ := mem_attemptsOf.mp hx
  refine if_neg fun hKey => ?_
  have hSame := (find_eq_some_iff.mpr ⟨hRow, hKey⟩).symm.trans hFind
  rw [Option.some.inj hSame] at hOwner
  exact hNe hOwner.symm

theorem attemptsOf_set_last
    (hAtts : t.attemptsOf a.jobID = front ++ [a]) :
    { t with attempts := t.attempts.set new : JobTables }.attemptsOf a.jobID = front ++ [new] := by
  have hDist : ((front ++ [a]).map JobAttempt.id).Nodup := by
    rw [← hAtts]
    exact t.attempts.nodup_filter _
  obtain ⟨-, hKey⟩ := find_eq_some_iff.mp hFind
  rw [attemptsOf_set hFind hJob, hAtts]
  exact map_replace_last hDist hKey.symm

end

theorem JobSystem.Sound.running (hSound : s.Sound)
    (hFind : s.tables.attempts.find id = some a) (hRun : a.status = .running) :
    ∃ j front, s.tables.jobs.find a.jobID = some j ∧ j.status.active ∧
      s.tables.attemptsOf a.jobID = front ++ [a] := by
  obtain ⟨hRow, -⟩ := find_eq_some_iff.mp hFind
  obtain ⟨j, hJob⟩ := Option.isSome_iff_exists.mp (hSound.owned a hRow)
  obtain ⟨hActive, front, hAtts⟩ := (hSound.each _ _ (history_of_find hJob)).live
    (mem_attemptsOf.mpr ⟨hRow, rfl⟩) hRun
  exact ⟨j, front, hJob, hActive, hAtts⟩

/-- A transaction that writes the row, the attempts and the allowance of one Job leaves the others
alone. -/
theorem follows_at {how : Text → Option History → Option History → Prop} (hRefl : ∀ k h, how k h h)
    (hSound : s.Sound)
    (hJobs : ∀ k, t'.jobs.find k = if k = id then some j else s.tables.jobs.find k)
    (hAtts : ∀ k, k ≠ id → t'.attemptsOf k = s.tables.attemptsOf k)
    (hCredit : ∀ k, k ≠ id → allowances k = s.allowances k)
    (hAt : how id (s.history id) (some ⟨j, t'.attemptsOf id, allowances id⟩)) :
    Follows how s ⟨t', allowances⟩ where
  each k := by
    by_cases hSame : k = id
    · subst hSame
      have hAfter : JobSystem.history ⟨t', allowances⟩ k = _ :=
        history_of_find ((hJobs k).trans (if_pos rfl))
      rw [hAfter]
      exact hAt
    · have hAfter : JobSystem.history ⟨t', allowances⟩ k = s.history k :=
        history_congr ((hJobs k).trans (if_neg hSame)) (hAtts k hSame) (hCredit k hSame)
      rw [hAfter]
      exact hRefl k _
  owned a ha := by
    rw [hJobs]
    split
    · rfl
    next hNe =>
    have hOld : a ∈ s.tables.attemptsOf a.jobID := hAtts _ hNe ▸ mem_attemptsOf.mpr ⟨ha, rfl⟩
    exact hSound.owned a (mem_attemptsOf.mp hOld).1

theorem advances_at (hSound : s.Sound) (hRow : s.tables.jobs.find id = some row)
    (hJobs : ∀ k, t'.jobs.find k = if k = id then some j else s.tables.jobs.find k)
    (hAtts : ∀ k, k ≠ id → t'.attemptsOf k = s.tables.attemptsOf k)
    (hCredit : ∀ k, k ≠ id → allowances k = s.allowances k)
    (hMove : Move ⟨row, s.tables.attemptsOf id, s.allowances id⟩
      ⟨j, t'.attemptsOf id, allowances id⟩) : Advances s ⟨t', allowances⟩ := by
  refine follows_at (fun _ => moves_refl) hSound hJobs hAtts hCredit ?_
  rw [history_of_find hRow]
  exact .some (.single hMove)

theorem advances_setJob (hSound : s.Sound) (hFind : s.tables.jobs.find j.id = some row)
    (hCredit : ∀ k, k ≠ j.id → allowances k = s.allowances k)
    (hMove : Move ⟨row, s.tables.attemptsOf j.id, s.allowances j.id⟩
      ⟨j, s.tables.attemptsOf j.id, allowances j.id⟩) :
    Advances s ⟨{ s.tables with jobs := s.tables.jobs.set j }, allowances⟩ :=
  advances_at hSound hFind (find_set_of_some hFind) (fun _ _ => rfl) hCredit hMove

theorem advances_setAttempt (hSound : s.Sound) {jobs : Table Job.id}
    (hFind : s.tables.attempts.find new.id = some a) (hOwner : new.jobID = a.jobID)
    (hRow : s.tables.jobs.find a.jobID = some row)
    (hJobs : ∀ k, jobs.find k = if k = a.jobID then some j else s.tables.jobs.find k)
    (hAtts : s.tables.attemptsOf a.jobID = front ++ [a])
    (hMove : Move ⟨row, front ++ [a], s.allowances a.jobID⟩ ⟨j, front ++ [new], s.allowances a.jobID⟩) :
    Advances s ⟨{ s.tables with attempts := s.tables.attempts.set new, jobs := jobs }, s.allowances⟩ := by
  refine advances_at hSound hRow hJobs (fun _ => attemptsOf_set_of_ne hFind hOwner) (fun _ _ => rfl) ?_
  rw [hAtts]
  exact attemptsOf_set_last hFind hOwner hAtts ▸ hMove

/-! ### The operations of a worker -/

variable {answer : Answer}

theorem heartbeat_advances (hSound : s.Sound) {input : JobHeartbeat}
    (h : heartbeat s.tables input now = .ok (answer, t')) : Advances s ⟨t', s.allowances⟩ := by
  replace h := past_guard h
  obtain ⟨a, hFenced, h⟩ := bind_ok h
  obtain ⟨beaten, hBeaten, h⟩ := bind_ok h
  obtain ⟨-, rfl⟩ := Prod.mk.inj (ok.inj h)
  obtain ⟨hFind, -, hRun, -⟩ := getFencedAttempt_ok hFenced
  obtain ⟨j, front, hJob, -, hAtts⟩ := hSound.running hFind hRun
  obtain ⟨-, hKey⟩ := find_eq_some_iff.mp hFind
  obtain ⟨hSame, hOwner, hStat, hNum⟩ : beaten.id = a.id ∧ beaten.jobID = a.jobID ∧
      beaten.status = .running ∧ beaten.number = a.number := by
    rw [JobAttempt.heartbeat_ok (reportAs_ok hBeaten)]
    exact ⟨rfl, rfl, hRun, rfl⟩
  rw [← hKey, ← hSame] at hFind
  refine advances_setAttempt hSound hFind hOwner hJob (fun k => ?_) hAtts (.beat rfl hRun hStat hNum)
  split
  · next hSame => rw [hSame, hJob]
  · rfl

theorem checkpoint_advances (hSound : s.Sound) {input : JobCheckpoint}
    (h : checkpoint jsonValid s.tables input now = .ok (answer, t')) : Advances s ⟨t', s.allowances⟩ := by
  replace h := past_guard h
  obtain ⟨a, -, h⟩ := bind_ok h
  obtain ⟨job, hJob, h⟩ := bind_ok h
  obtain ⟨updated, hUpd, h⟩ := bind_ok h
  obtain ⟨next, hNext, h⟩ := bind_ok h
  obtain ⟨-, rfl⟩ := Prod.mk.inj (ok.inj h)
  have hFind := getJob_ok hJob
  obtain ⟨-, hId⟩ := find_eq_some_iff.mp hFind
  rw [← hId] at hFind
  obtain ⟨hActive, rfl⟩ := Job.updateProgress_ok (reportAs_ok hUpd)
  rw [updateJob_ok hNext hFind rfl]
  refine advances_setJob hSound hFind (fun _ _ => rfl) (.revise ?_ rfl rfl rfl rfl ?_)
  · exact JobStatus.terminal_of_active hActive
  · exact Int.lt_succ job.revision

theorem completeAs_ok {updated : Job} {kind : JobCompletionKind}
    {code : Text} {instant : Instant} {status : JobAttemptStatus}
    (h : completeAs jsonValid j kind code input instant = .ok (updated, status)) :
    updated.id = j.id ∧ updatedRow j updated = updated ∧ updated.status.active = false ∧
      updated.attemptCount = j.attemptCount ∧
      updated.maximumAttempts = j.maximumAttempts + (if status = .incompatible then 1 else 0) ∧
      updated.workReserved = j.workReserved ∧ updated.revision = j.revision + 1 := by
  cases kind with
  | succeeded =>
    obtain ⟨_, hNext, h⟩ := bind_ok h
    cases h
    obtain rfl := Job.succeed_ok hNext
    exact ⟨rfl, rfl, rfl, rfl, (Int.add_zero _).symm, rfl, rfl⟩
  | retryableFailure =>
    obtain ⟨_, hNext, h⟩ := bind_ok h
    cases h
    unfold retryOrFail at hNext
    split at hNext
    · obtain rfl := Job.retry_ok hNext
      exact ⟨rfl, rfl, rfl, rfl, (Int.add_zero _).symm, rfl, rfl⟩
    · obtain rfl := Job.fail_ok hNext
      exact ⟨rfl, rfl, rfl, rfl, (Int.add_zero _).symm, rfl, rfl⟩
  | relinquished =>
    obtain ⟨_, hNext, h⟩ := bind_ok h
    cases h
    obtain rfl := Job.relinquish_ok hNext
    exact ⟨rfl, rfl, rfl, rfl, rfl, rfl, rfl⟩
  | permanentFailure =>
    obtain ⟨_, hNext, h⟩ := bind_ok h
    cases h
    obtain rfl := Job.fail_ok hNext
    exact ⟨rfl, rfl, rfl, rfl, (Int.add_zero _).symm, rfl, rfl⟩
  | canceled =>
    obtain ⟨_, hNext, h⟩ := bind_ok h
    cases h
    obtain ⟨-, rfl⟩ := Job.cancel_ok hNext
    exact ⟨rfl, rfl, rfl, rfl, (Int.add_zero _).symm, rfl, rfl⟩
  | unknown => cases h

theorem complete_advances (hSound : s.Sound)
    (h : complete jsonValid s.tables input now = .ok (answer, t')) : Advances s ⟨t', s.allowances⟩ := by
  replace h := past_guard h
  obtain ⟨a, hFenced, h⟩ := bind_ok h
  obtain ⟨job, hJob, h⟩ := bind_ok h
  obtain ⟨⟨updated, status⟩, hUpd, h⟩ := bind_ok h
  obtain ⟨completed, hComp, h⟩ := bind_ok h
  obtain ⟨next, hNext, h⟩ := bind_ok h
  obtain ⟨-, rfl⟩ := Prod.mk.inj (ok.inj h)
  obtain ⟨hFind, -, hRun, -⟩ := getFencedAttempt_ok hFenced
  obtain ⟨row, front, hRow, hActive, hAtts⟩ := hSound.running hFind hRun
  cases (getJob_ok hJob).symm.trans hRow
  obtain ⟨-, hId⟩ := find_eq_some_iff.mp hRow
  obtain ⟨hSame, hImmutable, hIdle, hCount, hMax, hWork, hRev⟩ :=
    completeAs_ok (reportAs_ok hUpd)
  obtain ⟨hDone, rfl⟩ := JobAttempt.complete_ok (reportAs_ok hComp)
  obtain ⟨-, hKey⟩ := find_eq_some_iff.mp hFind
  rw [← hKey] at hFind
  have hUpdatedRow : s.tables.jobs.find updated.id = some job := by
    rw [hSame, hId]
    exact hRow
  rw [updateJob_ok hNext hUpdatedRow hImmutable]
  refine advances_setAttempt hSound hFind rfl hRow (hId ▸ hSame ▸ find_set_of_some hUpdatedRow) hAtts
    (.finish hActive rfl hIdle hCount hMax hWork ?_ hDone rfl)
  show job.revision < updated.revision
  omega

theorem reserveWork_advances (hSound : s.Sound) {input : JobWorkReservation}
    (h : reserveWork s.tables input now = .ok (answer, t')) :
    Advances s ⟨t', account s.tables s.allowances (.reserveWork input) answer⟩ := by
  replace h := past_guard h
  obtain ⟨a, hFenced, h⟩ := bind_ok h
  obtain ⟨hFind, -, hRun, -⟩ := getFencedAttempt_ok hFenced
  obtain ⟨row, front, hRow, hActive, hAtts⟩ := hSound.running hFind hRun
  obtain ⟨-, hId⟩ := find_eq_some_iff.mp hRow
  simp only [hRow] at h
  split at h
  · next hWithin =>
    split at h
    · cases h
      have hAccount : account s.tables s.allowances (.reserveWork input)
          (.reservation true (row.workReserved + input.units)) = update s.allowances row.id
            { s.allowances row.id with granted := (s.allowances row.id).granted ++ [input.limit] } := by
        simp only [account, hFind, hId]
      rw [hAccount]
      rw [← hId] at hRow
      refine advances_setJob hSound (j := reservedRow row input.units now) hRow ?_ ?_
      · intro id hNe
        exact update_of_ne hNe _ _
      show Move _ ⟨_, _, update s.allowances row.id _ row.id⟩
      rw [update_self]
      exact .reserve hActive rfl rfl rfl hWithin (Int.lt_succ row.revision)
    · cases h
  · cases h
    exact .refl hSound

/-! ### Claims -/

theorem recoverExpired_idle (hIdle : j.status.active = false) : recoverExpired now attempts j = j := by
  rw [recoverExpired, hIdle]
  rfl

theorem recoverExpired_active (now : Instant) (attempts : List JobAttempt)
    (hActive : j.status.active) : (recoverExpired now attempts j).status.active = false ∧
      (recoverExpired now attempts j).attemptCount = j.attemptCount ∧
      (recoverExpired now attempts j).maximumAttempts = j.maximumAttempts ∧
      (recoverExpired now attempts j).workReserved = j.workReserved ∧
      (recoverExpired now attempts j).revision = j.revision + 1 := by
  rw [recoverExpired, if_pos hActive]
  refine ⟨?_, rfl, rfl, rfl, rfl⟩
  split
  · rfl
  · split <;> rfl

theorem recoverExpired_twice (now : Instant) (attempts : List JobAttempt) (j : Job) :
    recoverExpired now attempts (recoverExpired now attempts j) = recoverExpired now attempts j := by
  cases hActive : j.status.active with
  | false => rw [recoverExpired_idle hActive, recoverExpired_idle hActive]
  | true => exact recoverExpired_idle (recoverExpired_active now attempts hActive).1

theorem find_recoverJob (now : Instant) (attempts : List JobAttempt) (ids : List Text)
    (jobs : Table Job.id) (id : Text) : (ids.foldl (recoverJob now attempts) jobs).find id =
      (jobs.find id).map fun j => if id ∈ ids then recoverExpired now attempts j else j := by
  induction ids generalizing jobs with
  | nil => simp
  | cons first rest ih =>
    rw [foldl_cons, ih, recoverJob, find_mapRows]
    cases hFind : jobs.find id with
    | none => rfl
    | some j =>
      obtain ⟨-, rfl⟩ := find_eq_some_iff.mp hFind
      by_cases hFirst : j.id = first <;> by_cases hRest : j.id ∈ rest <;>
        simp [hFirst, hRest, recoverExpired_twice]

theorem expireLost_kept (hKept : leaseLost now a = false) : expireLost now a = a := by
  rw [expireLost, hKept]
  rfl

theorem leaseLost_running (hLost : leaseLost now a) : a.status = .running := by
  simp only [leaseLost, Bool.and_eq_true, beq_iff_eq] at hLost
  exact hLost.1

theorem map_expireLost_done
    (hDone : ∀ a ∈ attempts, a.status ≠ .running) : attempts.map (expireLost now) = attempts := by
  conv_rhs => rw [← map_id attempts]
  refine map_congr_left fun a ha => expireLost_kept ?_
  rw [← Bool.not_eq_true]
  exact fun hLost => hDone a ha (leaseLost_running hLost)

theorem recovered_moves {h : History} (hSound : Jobs.Sound h) (now : Instant) (ids : List Text)
    (id : Text) (attempts : List JobAttempt)
    (hIds : id ∈ ids ↔ ∃ a ∈ h.attempts, leaseLost now a) :
    Moves h { h with
      job := if id ∈ ids then recoverExpired now attempts h.job else h.job
      attempts := h.attempts.map (expireLost now) } := by
  cases hSound.staffed with
  | idle hIdle hDone _ =>
    rw [map_expireLost_done hDone, recoverExpired_idle hIdle, ite_self]
  | live hActive front a hAtts hRun hDone _ =>
    rw [hAtts, map_append, map_expireLost_done hDone, map_singleton]
    cases hLost : leaseLost now a with
    | true =>
      have hNamed : id ∈ ids := hIds.mpr ⟨a, by simp [hAtts], hLost⟩
      obtain ⟨hIdle, hCount, hMax, hWork, hRev⟩ :=
        recoverExpired_active now attempts hActive
      have hExp : expireLost now a = { a with status := .leaseExpired, completedAt := some now } := by
        rw [expireLost, hLost]
        rfl
      rw [if_pos hNamed]
      refine .single (.finish hActive hAtts hIdle hCount ?_ hWork ?_ ?_ ?_)
      · rw [hExp, hMax]
        exact (Int.add_zero _).symm
      · rw [hRev]
        exact Int.lt_succ h.job.revision
      · rw [hExp]
        exact JobAttemptStatus.noConfusion
      · rw [hExp]
    | false =>
      have hUnnamed : id ∉ ids := by
        rw [hIds]
        rintro ⟨x, hx, hxLost⟩
        rw [hAtts, mem_append, mem_singleton] at hx
        obtain hFront | rfl := hx
        · exact hDone x hFront (leaseLost_running hxLost)
        · rw [hLost] at hxLost
          cases hxLost
      rw [if_neg hUnnamed, expireLost_kept hLost, ← hAtts]

theorem recoverLost_advances (hSound : s.Sound)
    (h : recoverLost s.tables now = .ok t') : Advances s ⟨t', s.allowances⟩ := by
  unfold recoverLost at h
  dsimp only at h
  split at h
  case isFalse => cases h
  cases h
  have hAtts : ∀ id, ((s.tables.attempts.mapRows (expireLost now) (expireLost_id now)).rows.filter
      fun a => a.jobID == id) = (s.tables.attemptsOf id).map (expireLost now) := fun id =>
    filter_mapRows _ _ fun a _ => by rw [expireLost_jobID]
  refine ⟨fun id => ?_, fun a ha => ?_⟩
  · have hFound := find_recoverJob now (s.tables.attempts.mapRows (expireLost now) (expireLost_id now)).rows
      ((s.tables.attempts.rows.filter (leaseLost now)).map JobAttempt.jobID) s.tables.jobs id
    cases hFind : s.tables.jobs.find id with
    | none =>
      rw [hFind] at hFound
      rw [JobSystem.history, JobSystem.history, hFound, hFind]
      exact .none
    | some j =>
      rw [hFind] at hFound
      have hBefore := history_of_find hFind
      rw [hBefore, history_of_find hFound]
      refine .some ?_
      change Moves _ ⟨_, (s.tables.attempts.mapRows (expireLost now) (expireLost_id now)).rows.filter _, _⟩
      rw [hAtts]
      refine recovered_moves (hSound.each id _ hBefore) now _ id _ ?_
      rw [mem_map]
      constructor
      · rintro ⟨a, ha, hOwner⟩
        obtain ⟨hRow, hLost⟩ := mem_filter.mp ha
        exact ⟨a, mem_attemptsOf.mpr ⟨hRow, hOwner⟩, hLost⟩
      · rintro ⟨a, ha, hLost⟩
        obtain ⟨hRow, hOwner⟩ := mem_attemptsOf.mp ha
        exact ⟨a, mem_filter.mpr ⟨hRow, hLost⟩, hOwner⟩
  · obtain ⟨x, hx, rfl⟩ := mem_map.mp ha
    rw [expireLost_jobID, find_recoverJob, Option.isSome_map]
    exact hSound.owned x hx

theorem earliest_mem {jobs : List Job} (h : earliest jobs = some j) : j ∈ jobs := by
  induction jobs generalizing j with
  | nil => cases h
  | cons first rest ih =>
    unfold earliest at h
    split at h
    · cases h
      exact mem_cons_self
    next b hRest =>
    split at h
    · cases h
      exact mem_cons_of_mem _ (ih hRest)
    · cases h
      exact mem_cons_self

theorem insertAttempt_ok (h : insertAttempt t a = .ok t') :
    t'.jobs = t.jobs ∧ t'.attempts.rows = t.attempts.rows ++ [a] := by
  replace h := past_guard h
  split at h
  · cases h
  next attempts hIns =>
  cases h
  exact ⟨rfl, (insert_eq_some hIns).2⟩

theorem startClaimed_advances (hSound : s.Sound) (hRow : row ∈ s.tables.jobs.rows)
    (h : startClaimed jsonValid s.tables request attemptID now row = .ok (answer, t')) :
    Advances s ⟨t', s.allowances⟩ := by
  obtain ⟨job, hJob, h⟩ := bind_ok h
  obtain ⟨running, hRun, h⟩ := bind_ok h
  obtain ⟨updated, hUpd, h⟩ := bind_ok h
  obtain ⟨a, ha, h⟩ := bind_ok h
  obtain ⟨inserted, hIns, h⟩ := bind_ok h
  obtain ⟨-, rfl⟩ := Prod.mk.inj (ok.inj h)
  obtain rfl := persistedJob_ok hJob
  obtain ⟨hQueued, hRoom, hStarted⟩ := Job.start_ok (reportAs_ok hRun)
  obtain ⟨hId, hImmutable, hStat, hCount, hMax, hWork, hRev⟩ :
      running.id = job.id ∧ updatedRow job running = running ∧ running.status = .running ∧
      running.attemptCount = job.attemptCount + 1 ∧ running.maximumAttempts = job.maximumAttempts ∧
      running.workReserved = job.workReserved ∧ running.revision = job.revision + 1 := by
    rw [hStarted]
    exact ⟨rfl, rfl, rfl, rfl, rfl, rfl, rfl⟩
  have hFind : s.tables.jobs.find running.id = some job :=
    find_eq_some_iff.mpr ⟨hRow, hId.symm⟩
  obtain rfl := updateJob_ok hUpd hFind hImmutable
  obtain ⟨hOwner, hNum, hLive⟩ : a.jobID = running.id ∧ a.number = running.attemptCount ∧
      a.status = .running := by
    rw [JobAttempt.validated_ok (reportAs_ok ha)]
    exact ⟨rfl, rfl, rfl⟩
  obtain ⟨hJobs, hRows⟩ := insertAttempt_ok hIns
  have hAtts : ∀ id, inserted.attemptsOf id =
      s.tables.attemptsOf id ++ if a.jobID = id then [a] else [] := by
    intro id
    unfold JobTables.attemptsOf
    rw [hRows]
    by_cases hOwn : a.jobID = id <;> simp [hOwn]
  have hFound : ∀ k, inserted.jobs.find k = if k = running.id then some running else s.tables.jobs.find k := by
    rw [hJobs]
    exact find_set_of_some hFind
  refine advances_at hSound hFind hFound (fun k hNe => ?_) (fun _ _ => rfl) ?_
  · rw [hAtts, if_neg (by rw [hOwner]; exact hNe.symm), append_nil]
  rw [hAtts, if_pos hOwner]
  refine .start hQueued hRoom hStat hCount hMax hWork ?_ hLive hNum
  show job.revision < running.revision
  omega

theorem claimNext_advances (hSound : s.Sound)
    (h : claimNext jsonValid s.tables request attemptID now = .ok (answer, t')) :
    Advances s ⟨t', s.allowances⟩ := by
  replace h := past_guard h
  obtain ⟨recovered, hRecovered, h⟩ := bind_ok h
  have hAdvances := recoverLost_advances hSound hRecovered
  split at h
  · split at h
    · obtain ⟨-, rfl⟩ := Prod.mk.inj (ok.inj h)
      exact hAdvances
    · cases h
  · next row hRow =>
    have hMem : row ∈ recovered.jobs.rows := (mem_filter.mp (earliest_mem hRow)).1
    exact hAdvances.trans
      (startClaimed_advances ((hAdvances.effect (.claimNext request attemptID)).sound hSound) hMem h)

/-! ### Enqueueing and the operator's requests -/

theorem insertQueuedJob_ok (h : insertQueuedJob t j = .ok t') :
    t'.attempts = t.attempts ∧ t.jobs.find j.id = none ∧
      ∀ id, t'.jobs.find id = if id = j.id then some (queuedRow j) else t.jobs.find id := by
  replace h := past_guard h
  split at h
  · cases h
  next jobs hIns =>
  cases h
  exact ⟨rfl, (insert_eq_some hIns).1, find_insert hIns⟩

theorem created_effect (hSound : s.Sound) {inserted : JobTables}
    (hAtts : inserted.attempts = s.tables.attempts) (hFree : s.tables.jobs.find j.id = none)
    (hFind : ∀ id, inserted.jobs.find id = if id = j.id then some (queuedRow j) else s.tables.jobs.find id)
    (hQueued : j.status = .queued) (hMax : 0 < j.maximumAttempts) :
    Effect (.enqueue j) s ⟨inserted, update s.allowances j.id ⟨0, j.maximumAttempts, []⟩⟩ := by
  have hOf : ∀ id, inserted.attemptsOf id = s.tables.attemptsOf id := fun id => by
    unfold JobTables.attemptsOf
    rw [hAtts]
  refine follows_at (fun _ h => .moved (moves_refl h)) hSound hFind (fun k _ => hOf k)
    (fun _ hNe => update_of_ne hNe _ _) ?_
  rw [JobSystem.history, hFree]
  refine .created ⟨hQueued, rfl, hMax.le, rfl, ?_, update_self ..⟩
  show inserted.attemptsOf j.id = []
  rw [hOf, eq_nil_iff_forall_not_mem]
  intro a ha
  obtain ⟨hRow, hOwner⟩ := mem_attemptsOf.mp ha
  have hOwned := hSound.owned a hRow
  rw [hOwner, hFree] at hOwned
  cases hOwned

theorem enqueue_effect (hSound : s.Sound) (h : enqueue jsonValid s.tables j = .ok (answer, t')) :
    Effect (.enqueue j) s ⟨t', account s.tables s.allowances (.enqueue j) answer⟩ := by
  obtain ⟨hGuard, h⟩ := guard_ok h
  simp only [Bool.or_eq_true, decide_eq_true_eq, bne_iff_ne, not_or, ne_eq, not_not,
    Bool.not_eq_false] at hGuard
  obtain ⟨⟨hValid, hQueued⟩, -⟩ := hGuard
  have hMax : 0 < j.maximumAttempts := by
    cases hRes : j.validate jsonValid with
    | ok u => exact (Job.validate_ok hRes).2
    | error _ => rw [hRes] at hValid; cases hValid
  -- under either policy a Job is found or inserted
  split at h
  all_goals
    split at h
    · obtain ⟨_, -, h⟩ := bind_ok h
      cases h
      exact (Advances.refl hSound).effect _
    · obtain ⟨inserted, hIns, h⟩ := bind_ok h
      cases h
      obtain ⟨hAtts, hFree, hFind⟩ := insertQueuedJob_ok hIns
      exact created_effect hSound hAtts hFree hFind hQueued hMax

variable {input : JobMutation}

theorem mutateOperatorJob_ok {operation : String} {mutate : Job → Instant → Except Fault Job}
    (h : mutateOperatorJob jsonValid t input operation mutate now = .ok (answer, t')) :
    ∃ row updated, t.jobs.find input.id = some row ∧
      mutate row (latestTime row.updatedAt now) = .ok updated ∧ updateJob t updated = .ok t' ∧
      answer = .job updated := by
  replace h := past_guard h
  obtain ⟨row, hRow, h⟩ := bind_ok h
  replace h := past_guard h
  obtain ⟨updated, hUpd, h⟩ := bind_ok h
  obtain ⟨next, hNext, h⟩ := bind_ok h
  cases h
  exact ⟨row, updated, getJob_ok hRow, reportAs_ok hUpd, hNext, rfl⟩

theorem cancel_advances (hSound : s.Sound)
    (h : cancel jsonValid s.tables input now = .ok (answer, t')) : Advances s ⟨t', s.allowances⟩ := by
  obtain ⟨row, updated, hFind, hMutate, hUpd, -⟩ := mutateOperatorJob_ok h
  obtain ⟨-, hId⟩ := find_eq_some_iff.mp hFind
  rw [← hId] at hFind
  obtain ⟨hQueued, hCancel⟩ | ⟨hRun, rfl⟩ := Job.requestCancellation_ok hMutate
  · obtain ⟨hOpen, rfl⟩ := Job.cancel_ok hCancel
    rw [updateJob_ok hUpd hFind rfl]
    refine advances_setJob hSound hFind (fun _ _ => rfl)
      (.revise hOpen ?_ rfl rfl rfl (Int.lt_succ row.revision))
    rw [hQueued]
    rfl
  · rw [updateJob_ok hUpd hFind rfl]
    refine advances_setJob hSound hFind (fun _ _ => rfl)
      (.revise ?_ ?_ rfl rfl rfl (Int.lt_succ row.revision))
    · rw [hRun]
      rfl
    · rw [hRun]
      rfl

theorem retry_effect (hSound : s.Sound) (h : retry jsonValid s.tables input now = .ok (answer, t')) :
    Effect (.retry input) s ⟨t', account s.tables s.allowances (.retry input) answer⟩ := by
  obtain ⟨row, updated, hFind, hMutate, hUpd, rfl⟩ := mutateOperatorJob_ok h
  obtain ⟨-, hId⟩ := find_eq_some_iff.mp hFind
  obtain ⟨hTerm, hRetry⟩ := Job.explicitRetry_ok hMutate
  obtain ⟨hSame, hImmutable, hStat, hCount, hMax, hWork, hRev⟩ :
      updated.id = input.id ∧ updatedRow row updated = updated ∧ updated.status = .queued ∧
      updated.attemptCount = row.attemptCount ∧ updated.maximumAttempts = row.attemptCount + 1 ∧
      updated.workReserved = row.workReserved ∧ updated.revision = row.revision + 1 := by
    rw [hRetry]
    exact ⟨hId, rfl, rfl, rfl, rfl, rfl, rfl⟩
  rw [← hSame] at hFind
  obtain rfl := updateJob_ok hUpd hFind hImmutable
  refine follows_at (fun _ h => .moved (moves_refl h)) hSound (find_set_of_some hFind) (fun _ _ => rfl)
    (fun _ hNe => update_of_ne (hSame ▸ hNe) _ _) ?_
  rw [history_of_find hFind]
  refine .retried rfl hSame.symm ⟨hTerm, hStat, hCount, hMax, hWork, ?_, rfl, ?_⟩
  · show row.revision < updated.revision
    omega
  · show update s.allowances input.id _ updated.id = _
    rw [hSame, update_self, hCount]

/-! ### Whole runs -/

variable {operation : Operation}

theorem execute_effect (hSound : s.Sound)
    (h : operation.execute jsonValid s.tables now = .ok (answer, t')) :
    Effect operation s ⟨t', account s.tables s.allowances operation answer⟩ := by
  cases operation with
  | enqueue job => exact enqueue_effect hSound h
  | claimNext request attemptID => exact (claimNext_advances hSound h).effect _
  | heartbeat input => exact (heartbeat_advances hSound h).effect _
  | checkpoint input => exact (checkpoint_advances hSound h).effect _
  | reserveWork input => exact (reserveWork_advances hSound h).effect _
  | complete input => exact (complete_advances hSound h).effect _
  | cancel input => exact (cancel_advances hSound h).effect _
  | retry input => exact retry_effect hSound h

theorem step_effect (jsonValid : Bytes → Bool) (hSound : s.Sound) (r : Request) :
    Effect r.operation s (s.step jsonValid r) := by
  unfold JobSystem.step
  split
  · exact (Advances.refl hSound).effect _
  next answer tables hExec =>
  split
  · exact execute_effect hSound hExec
  · exact (Advances.refl hSound).effect _

theorem initial_sound : JobSystem.initial.Sound where
  each id h hHistory := by cases hHistory
  owned a ha := by cases ha

def HoldsClaim (t : JobTables) (id token : Text) (now : Instant) : Prop :=
  ∃ a, t.attempts.find id = some a ∧ a.claimToken = token ∧ a.status = .running ∧
    timeUTC now < a.leaseExpiresAt

theorem execute_holdsClaim (hClaim : operation.claim = some (id, token))
    (h : operation.execute jsonValid t now = .ok (answer, t')) : HoldsClaim t id token now := by
  cases operation with
  | enqueue job | claimNext request attemptID | cancel input | retry input => cases hClaim
  | heartbeat input | checkpoint input | reserveWork input | complete input =>
    cases hClaim
    replace h := past_guard h
    obtain ⟨a, hFenced, -⟩ := bind_ok h
    exact ⟨a, getFencedAttempt_ok hFenced⟩

theorem step_of_lostClaim {r : Request}
    (hClaim : r.operation.claim = some (id, token)) (hLost : ¬HoldsClaim s.tables id token r.now) :
    s.step jsonValid r = s := by
  unfold JobSystem.step
  split
  · rfl
  · next answer tables hExec => exact absurd (execute_holdsClaim hClaim hExec) hLost

theorem Effect.job (h : Effect operation s s')
    (hj : j ∈ s.tables.jobs.rows) : ∃ j' ∈ s'.tables.jobs.rows, j'.id = j.id ∧
      (j' = j ∨ j.revision < j'.revision) ∧
      (j.status.terminal → j' ≠ j → ∃ input, operation = .retry input ∧ input.id = j.id) := by
  have hHow := h.each j.id
  rw [history_of_find (find_eq_some_iff.mpr ⟨hj, rfl⟩)] at hHow
  cases hAfter : s'.history j.id with
  | none =>
    rw [hAfter] at hHow
    obtain ⟨⟨⟩⟩ := hHow
  | some after =>
    rw [hAfter] at hHow
    obtain ⟨hRow, hId⟩ := find_eq_some_iff.mp (history_eq_some_iff.mp hAfter).1
    refine ⟨after.job, hRow, hId, ?_⟩
    cases hHow with
    | moved hMoves =>
      cases hMoves with
      | some hMoves => exact ⟨hMoves.revision, fun hTerm hChg => absurd (hMoves.terminal hTerm) hChg⟩
    | retried hOp hInput hRetry => exact ⟨.inr hRetry.revision, fun _ _ => ⟨_, hOp, hInput⟩⟩

theorem run_sound (jsonValid : Bytes → Bool) (requests : List Request) :
    (requests.foldl (JobSystem.step jsonValid) .initial).Sound := by
  refine List.foldlRecOn requests _ initial_sound fun s hSound r _ => ?_
  exact (step_effect jsonValid hSound r).sound hSound

end

/-- After any run of the store's operations: a Job is running or has its cancellation requested
exactly while one of its attempts is running; its attempts are numbered 1 to its attempt count, which
is at most its maximum; the attempts since its last explicit retry that kept their slot are within
the budget of that time; its reserved work is within the limit of its last granted reservation. And
every further transaction raises the revision of each Job it changes, leaves everything alone where
it presents a claim that is not held, and changes a terminal Job only as its explicit retry. -/
theorem jobStore_lifecycle (jsonValid : Bytes → Bool) (requests : List Request) :
    let s := requests.foldl (JobSystem.step jsonValid) .initial
    (∀ j ∈ s.tables.jobs.rows, (j.status.active = true ↔
        ((s.tables.attemptsOf j.id).filter fun a => a.status == .running).length = 1) ∧
      (s.tables.attemptsOf j.id).map (·.number) =
        (List.range j.attemptCount.toNat).map (fun i : Nat => (i : Int) + 1) ∧
      j.attemptCount ≤ j.maximumAttempts ∧
      (((((s.tables.attemptsOf j.id).drop (s.allowances j.id).spentBefore).filter
        fun a => a.status != .incompatible).length : Nat) : Int) ≤ (s.allowances j.id).budget ∧
      j.workReserved ≤ (s.allowances j.id).granted.getLast?.getD 0) ∧
    (∀ r, ∀ j ∈ s.tables.jobs.rows, ∃ j' ∈ (s.step jsonValid r).tables.jobs.rows, j'.id = j.id ∧
      (j' = j ∨ j.revision < j'.revision) ∧
      (j.status.terminal = true → j' ≠ j → ∃ input, r.operation = .retry input ∧ input.id = j.id)) ∧
    (∀ (r : Request) id token, r.operation.claim = some (id, token) →
      ¬HoldsClaim s.tables id token r.now → s.step jsonValid r = s) := by
  intro s
  have hSound : s.Sound := run_sound jsonValid requests
  refine ⟨fun j hj => ?_, fun r j hj => (step_effect jsonValid hSound r).job hj,
    fun r id token hClaim hLost => step_of_lostClaim hClaim hLost⟩
  have hJob := hSound.each j.id _ (history_of_find (Table.find_eq_some_iff.mpr ⟨hj, rfl⟩))
  refine ⟨hJob.active_iff, ?_, hJob.within, hJob.consumed_le, hJob.reserved⟩
  have hCount : j.attemptCount = (s.tables.attemptsOf j.id).length := hJob.count
  rw [hCount]
  exact hJob.numbered

def sampleJobID : Text := "ybndrfg8ejkmcpqxot1uwisza3"

def sampleAttemptID : Text := "ybndrfg8ejkmcpqxot1uwisza4"

def sampleToken : Text := List.replicate 64 '0'

def sampleJob : Job :=
  { id := sampleJobID, type := .cleanup, status := .queued, createdAt := 1000, updatedAt := 1000
    availableAt := 1000, startedAt := none, completedAt := none, command := [123, 125], checkpoint := []
    result := [], publicErrorCode := [], dedupeKey := ['k'], dedupePolicy := .active, attemptCount := 0
    maximumAttempts := 1, workReserved := 0, progress := none, revision := 1 }

def twoReservations : List Request :=
  [⟨.enqueue sampleJob, 1000, true⟩,
   ⟨.claimNext ⟨[.cleanup], ['n'], sampleToken, 1000000⟩ sampleAttemptID, 2000, true⟩,
   ⟨.reserveWork ⟨sampleAttemptID, sampleToken, 5, 5⟩, 3000, true⟩,
   ⟨.reserveWork ⟨sampleAttemptID, sampleToken, 5, 10⟩, 4000, true⟩]

/-- The limit belongs to the reservation, not to the Job: a later reservation under a larger limit
takes the reserved work past the limit of an earlier one. -/
theorem workReserved_above_earlier_limit :
    let s := twoReservations.foldl (JobSystem.step fun _ => true) .initial
    s.tables.jobs.rows.map (·.workReserved) = [10] ∧ (s.allowances sampleJobID).granted = [5, 10] := by
  decide +kernel

end Proctor.Jobs
