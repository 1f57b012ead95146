import Proctor.Commands.Outcome

/-! # Commands take effect once

From the recording of an outcome to its deletion every call under its key is answered from the
record, whatever other commands, lookups and deletions run in between. -/
namespace Proctor.Commands

open Json ExamPolicy Keyed Fallible Except
open Jobs (Instant)

variable {D A V β : Type}

inductive Operation (D A V : Type) where
  | mutate (m : IdempotentMutation D A V) (at_ : Circumstances)
  | has (c : CommandIdempotency A) (at_ : Circumstances)
  | deleteExpired (limit : Int) (now : Instant) (locked : CommandKey → Bool)

def committed {α : Type} (db : Database D) : Except Fault (α × Database D) → Database D
  | .ok (_, db') => db'
  | .error _ => db

def step (server : Server D A) (db : Database D) : Operation D A V → Database D
  | .mutate m at_ => committed db (runIdempotentMutation server db m at_)
  | .has c at_ => committed db (has db c at_)
  | .deleteExpired limit now locked => committed db (deleteExpired db limit now locked)

def run (server : Server D A) (db : Database D) (ops : List (Operation D A V)) : Database D :=
  ops.foldl (step server) db

def Deletes (server : Server D A) (db : Database D) (op : Operation D A V) (k : CommandKey) : Prop :=
  (db.outcomes.find k).isSome ∧ (step server db op).outcomes.find k = none

def CommandOutcomeRow.Retained (r r' : CommandOutcomeRow) : Prop :=
  r' = { r with expiresAt := r'.expiresAt } ∧ r.expiresAt ≤ r'.expiresAt

theorem CommandOutcomeRow.Retained.refl (r : CommandOutcomeRow) : r.Retained r :=
  ⟨rfl, le_refl _⟩

theorem CommandOutcomeRow.Retained.trans {a b c : CommandOutcomeRow} (hFirst : a.Retained b)
    (hSecond : b.Retained c) : a.Retained c := by
  obtain ⟨hb, hab⟩ := hFirst
  obtain ⟨hc, hbc⟩ := hSecond
  refine ⟨?_, hab.trans hbc⟩
  rw [hc, hb]

def Recorded (r : CommandOutcomeRow) (c : CommandIdempotency A) : Prop :=
  r.fingerprint = c.fingerprint ∧ r.batchGroupDigest = c.batch.map (·.groupDigest)

/-- The callbacks of a replay leave the business part of the database alone. -/
structure SparesBusiness (business : D → β) (server : Server D A) (m : IdempotentMutation D A V) :
    Prop where
  hydrated : ∀ callback, m.hydrateReplay = some callback → ∀ d value value' d',
    callback d value = .ok (value', d') → business d' = business d
  replayed : ∀ callback, m.completeReplay = some callback → ∀ d value original d',
    callback d value original = .ok d' → business d' = business d
  duplicate : ∀ callback, m.completeDuplicate = some callback → ∀ d value original d',
    callback d value original = .ok d' → business d' = business d
  audited : ∀ d audit original d',
    server.completeBatchDuplicateAudit d audit original = .ok d' → business d' = business d

/-- The row of the command's own onboarding import is still pending. -/
def ImportPending (c : CommandIdempotency A) (db : Database D) : Prop :=
  c.onboardingImportID ≠ [] ∧ ∃ old,
    db.importRows.find (c.onboardingImportID, c.onboardingImportRowNumber) = some old ∧ old.status = .pending

/-- Only that row may have been settled, and the counts of its import with it. -/
structure ImportsSettled (c : CommandIdempotency A) (db db' : Database D) : Prop where
  rows : ∀ k, db'.importRows.find k = db.importRows.find k ∨
    ImportPending c db ∧ k = (c.onboardingImportID, c.onboardingImportRowNumber)
  imports : ∀ id, db'.imports.find id = db.imports.find id ∨ ImportPending c db ∧ id = c.onboardingImportID

theorem ImportsSettled.refl (c : CommandIdempotency A) (db : Database D) : ImportsSettled c db db :=
  ⟨fun _ => .inl rfl, fun _ => .inl rfl⟩

theorem refreshOnboardingImportCounts_ok {db db' : Database D} {id : Text} {at_ : Instant}
    (h : refreshOnboardingImportCounts db id at_ = .ok db') :
    ∃ imports, db' = { db with imports } ∧ ∀ other, other ≠ id → imports.find other = db.imports.find other := by
  unfold refreshOnboardingImportCounts at h
  split at h
  · cases h
  next current hFind =>
  replace h := past_guard h
  obtain ⟨-, rfl⟩ := Table.find_eq_some_iff.mp hFind
  exact ⟨_, (ok.inj h).symm, fun other hOther => Table.find_set_of_ne hOther⟩

theorem decodeRecorded_ok {m : IdempotentMutation D A V} {outcome : Bytes} {field : String} {v : V}
    (h : decodeRecorded m outcome field = .ok v) : m.decode outcome = .ok v := by
  unfold decodeRecorded at h
  split at h
  · next value hDec => rw [hDec, ok.inj h]
  · cases h

theorem completeOnboardingImportCommand_ok {db db' : Database D} {c : CommandIdempotency A} {value : V}
    {resolve : Option (V → Except Fault OnboardingImportCommandResult)} {now : Instant}
    (h : completeOnboardingImportCommand db c value resolve now = .ok db') :
    db'.outcomes = db.outcomes ∧ db'.rest = db.rest ∧ ImportsSettled c db db' := by
  unfold completeOnboardingImportCommand at h
  split at h
  · rw [← ok.inj h]
    exact ⟨rfl, rfl, .refl c db⟩
  next hImport =>
  split at h
  · cases h
  obtain ⟨outcome, -, h⟩ := bind_ok h
  replace h := past_guard h
  split at h
  · cases h
  next current hFind =>
  split at h
  · split at h
    · rw [← ok.inj h]
      exact ⟨rfl, rfl, .refl c db⟩
    · cases h
  · next hPend =>
    have hPending : ImportPending c db := ⟨by simpa using hImport, current, hFind, by simpa using hPend⟩
    obtain ⟨-, hKey⟩ := Table.find_eq_some_iff.mp hFind
    obtain ⟨imports, rfl, hOthers⟩ := refreshOnboardingImportCounts_ok h
    refine ⟨rfl, rfl, fun k => ?_, fun id => ?_⟩
    · by_cases hk : k = current.key
      · exact .inr ⟨hPending, hk.trans hKey⟩
      · exact .inl (Table.find_set_of_ne hk)
    · by_cases hID : id = c.onboardingImportID
      · exact .inr ⟨hPending, hID⟩
      · exact .inl (hOthers id hID)

section
variable {business : D → β} {server : Server D A} {m : IdempotentMutation D A V} {d d' : D}

section

variable (hSpares : SparesBusiness business server m)
include hSpares

theorem SparesBusiness.hydrate_eq {v v' : V}
    (h : hydrate m d v = .ok (v', d')) : business d' = business d := by
  unfold hydrate at h
  split at h
  · rw [(Prod.mk.inj (ok.inj h)).2]
  · next callback hSome => exact hSpares.hydrated callback hSome d v v' d' h

theorem SparesBusiness.completeDuplicateAudit_eq
    {v : V} {original : Text} (h : completeDuplicateAudit server m d v original = .ok d') :
    business d' = business d := by
  unfold completeDuplicateAudit at h
  split at h
  · next callback hSome => exact hSpares.duplicate callback hSome d v original d' h
  · exact hSpares.audited d m.auditEventID original d' h

theorem SparesBusiness.completeReplayAudit_eq
    {v : V} {row : CommandOutcomeRow} (h : completeReplayAudit server m row d v = .ok d') :
    business d' = business d := by
  unfold completeReplayAudit at h
  split at h
  · exact hSpares.completeDuplicateAudit_eq h
  split at h
  · next callback original hSome _ =>
    split at h
    · exact hSpares.replayed callback hSome d v original d' h
    · rw [ok.inj h]
  · rw [ok.inj h]

end

structure Replayed (business : D → β) (server : Server D A) (m : IdempotentMutation D A V)
    (r : CommandOutcomeRow) (db : Database D) (result : IdempotentResult V) (db' : Database D) :
    Prop where
  recorded : Recorded r m.command
  disposition : result.disposition = .replayed
  value : ∃ v d, m.decode r.outcome = .ok v ∧ hydrate m db.rest v = .ok (result.value, d)
  outcomes : db'.outcomes = db.outcomes
  imports : ImportsSettled m.command db db'
  business : SparesBusiness business server m → business db'.rest = business db.rest

variable {db db' : Database D} {result : IdempotentResult V} {r : CommandOutcomeRow} {now : Instant}

theorem replayRecordedOutcome_ok (business : D → β)
    (h : replayRecordedOutcome server db m r now = .ok (result, db')) :
    Replayed business server m r db result db' := by
  obtain ⟨hFingerprint, h⟩ := guard_ok h
  obtain ⟨hGroup, h⟩ := guard_ok h
  obtain ⟨recorded, hDec, h⟩ := bind_ok h
  obtain ⟨⟨value, hydrated⟩, hHydrate, h⟩ := bind_ok h
  obtain ⟨audited, hAudit, h⟩ := bind_ok h
  obtain ⟨completed, hComp, h⟩ := bind_ok h
  obtain ⟨hOutcomes, hRest, hImports⟩ := completeOnboardingImportCommand_ok hComp
  cases pure_ok h
  exact {
    recorded := ⟨not_not.mp hFingerprint, not_not.mp hGroup⟩
    disposition := rfl
    value := ⟨recorded, hydrated, decodeRecorded_ok hDec, hHydrate⟩
    outcomes := hOutcomes
    imports := ⟨hImports.rows, hImports.imports⟩
    business := fun hSpares => by
      rw [hRest, ← hSpares.hydrate_eq hHydrate]
      exact hSpares.completeReplayAudit_eq hAudit }

theorem insertOutcome_ok {row : CommandOutcomeRow} (h : insertOutcome server db row = .ok db') :
    ∃ stored, server.jsonb row.outcome = some stored ∧
      db.outcomes.insert { row with outcome := stored } = some db'.outcomes ∧
      db' = { db with outcomes := db'.outcomes } := by
  unfold insertOutcome at h
  split at h
  · cases h
  next stored hStored =>
  replace h := past_guard h
  split at h
  · cases h
  next outcomes hIns =>
  rw [← ok.inj h]
  exact ⟨stored, hStored, hIns, rfl⟩

def RecordedBy (server : Server D A) (m : IdempotentMutation D A V) (value : V) (now : Instant)
    (row : CommandOutcomeRow) : Prop :=
  row.key = m.command.key ∧ Recorded row m.command ∧
    row.expiresAt = now + retainedFor m.command.retention ∧
    ∃ encoded, m.encode value = .ok encoded ∧ server.jsonb encoded = some row.outcome

theorem executeAndRecordOutcome_ok (h : executeAndRecordOutcome server db m now = .ok (result, db')) :
    result.disposition = .executed ∧ m.execute db.rest = .ok (result.value, db'.rest) ∧
      ImportsSettled m.command db db' ∧
        ∃ row, RecordedBy server m result.value now row ∧ db.outcomes.insert row = some db'.outcomes := by
  obtain ⟨⟨value, executed⟩, hExec, h⟩ := bind_ok h
  obtain ⟨encoded, hEnc, h⟩ := bind_ok h
  replace h := past_guard h
  obtain ⟨audit, -, h⟩ := bind_ok h
  obtain ⟨inserted, hIns, h⟩ := bind_ok h
  obtain ⟨completed, hComp, h⟩ := bind_ok h
  obtain ⟨stored, hStored, hIns, hInserted⟩ := insertOutcome_ok hIns
  obtain ⟨hOutcomes, hCompleted, hSettled⟩ := completeOnboardingImportCommand_ok hComp
  cases pure_ok h
  rw [← hOutcomes] at hIns
  rw [hInserted] at hCompleted hSettled
  exact ⟨rfl, hCompleted ▸ hExec, ⟨hSettled.rows, hSettled.imports⟩, _,
    ⟨rfl, ⟨rfl, rfl⟩, rfl, encoded, hEnc, hStored⟩, hIns⟩

/-- A duplicate member of a batch is answered from the outcome of its canonical member, and recorded
with it. -/
structure Duplicated (business : D → β) (server : Server D A) (m : IdempotentMutation D A V)
    (now : Instant) (db : Database D) (value : V) (db' : Database D) : Prop where
  answered : ∃ batch ∈ m.command.batch, ∃ canonical v d,
    db.outcomes.find { m.command.key with keyDigest := batch.duplicateOfKeyDigest } = some canonical ∧
    canonical.batchGroupDigest = some batch.groupDigest ∧ m.decode canonical.outcome = .ok v ∧
    hydrate m db.rest v = .ok (value, d) ∧ ∃ row, row.key = m.command.key ∧ Recorded row m.command ∧
      row.expiresAt = now + retainedFor m.command.retention ∧
      server.jsonb canonical.outcome = some row.outcome ∧ db.outcomes.insert row = some db'.outcomes
  importRows : db'.importRows = db.importRows
  imports : db'.imports = db.imports
  business : SparesBusiness business server m → business db'.rest = business db.rest

theorem recordDuplicateBatchOutcome_ok (business : D → β) {batch : CommandBatch} (hBatch : batch ∈ m.command.batch)
    (h : recordDuplicateBatchOutcome server db m batch now = .ok (result, db')) :
    result.disposition = .duplicate ∧ Duplicated business server m now db result.value db' := by
  unfold recordDuplicateBatchOutcome at h
  split at h
  · cases h
  next canonical hCanonical =>
  obtain ⟨hGroup, h⟩ := guard_ok h
  obtain ⟨recorded, hDec, h⟩ := bind_ok h
  obtain ⟨⟨value, hydrated⟩, hHydrate, h⟩ := bind_ok h
  obtain ⟨audited, hAudit, h⟩ := bind_ok h
  obtain ⟨inserted, hIns, h⟩ := bind_ok h
  obtain ⟨stored, hStored, hIns, hInserted⟩ := insertOutcome_ok hIns
  cases pure_ok h
  have hSameGroup : canonical.batchGroupDigest = some batch.groupDigest := by
    simpa using (not_or.mp (mt Bool.or_eq_true_iff.mpr hGroup)).2
  refine ⟨rfl, ⟨batch, hBatch, canonical, recorded, hydrated, hCanonical, hSameGroup, decodeRecorded_ok hDec,
    hHydrate, _, rfl, ⟨rfl, ?_⟩, rfl, hStored, hIns⟩, by rw [hInserted], by rw [hInserted], fun hSpares => ?_⟩
  · rw [Option.mem_def.mp hBatch]
    rfl
  · rw [hInserted, ← hSpares.hydrate_eq hHydrate]
    exact hSpares.completeDuplicateAudit_eq hAudit

variable {at_ : Circumstances}

theorem runIdempotentMutation_ok (h : runIdempotentMutation server db m at_ = .ok (result, db')) :
    (∃ r, db.outcomes.find m.command.key = some r ∧
      replayRecordedOutcome server db m r at_.now = .ok (result, db')) ∨
    (db.outcomes.find m.command.key = none ∧
      ((∃ batch ∈ m.command.batch, batch.duplicateOfKeyDigest ≠ 0 ∧
          recordDuplicateBatchOutcome server db m batch at_.now = .ok (result, db')) ∨
        executeAndRecordOutcome server db m at_.now = .ok (result, db'))) := by
  replace h := past_guard h
  obtain ⟨done, hDone, h⟩ := bind_ok h
  replace h := past_guard h
  obtain rfl := pure_ok h
  obtain ⟨-, -, hDone⟩ := bind_ok hDone
  split at hDone
  · next row hFind => exact .inl ⟨row, hFind, hDone⟩
  · next batch hFind hBatch =>
    refine .inr ⟨hFind, ?_⟩
    split at hDone
    · next hDup => exact .inl ⟨batch, hBatch, by simpa using hDup, hDone⟩
    · exact .inr hDone
  · next hFind _ => exact .inr ⟨hFind, .inr hDone⟩

/-! ## What one operation does to a record -/

variable {k : CommandKey}

theorem find_runIdempotentMutation
    (h : runIdempotentMutation server db m at_ = .ok (result, db')) (hr : db.outcomes.find k = some r) :
    db'.outcomes.find k = some r := by
  have hInserted : ∀ row : CommandOutcomeRow, row.key = m.command.key →
      db.outcomes.find m.command.key = none → db.outcomes.insert row = some db'.outcomes →
      db'.outcomes.find k = some r := by
    intro row hKey hFree hIns
    have hNe : k ≠ row.key := by
      rintro rfl
      rw [hKey, hFree] at hr
      cases hr
    rw [Table.find_insert hIns, if_neg hNe, hr]
  rcases runIdempotentMutation_ok h with ⟨row, -, hReplay⟩ | ⟨hFree, ⟨batch, hBatch, -, hDup⟩ | hExec⟩
  · rw [(replayRecordedOutcome_ok id hReplay).outcomes, hr]
  · obtain ⟨_, -, _, _, _, -, -, -, -, row, hKey, -, -, -, hIns⟩ :=
      (recordDuplicateBatchOutcome_ok id hBatch hDup).2.answered
    exact hInserted row hKey hFree hIns
  · obtain ⟨-, -, -, row, hRow, hIns⟩ := executeAndRecordOutcome_ok hExec
    exact hInserted row hRow.1 hFree hIns

theorem has_retains {c : CommandIdempotency A} {found : Bool} (h : has db c at_ = .ok (found, db'))
    (hr : db.outcomes.find k = some r) : ∃ r', db'.outcomes.find k = some r' ∧ r.Retained r' := by
  replace h := past_guard h
  replace h := past_guard h
  replace h := past_guard h
  split at h
  · obtain ⟨-, rfl⟩ := Prod.mk.inj (ok.inj h)
    exact ⟨r, hr, .refl r⟩
  next row hRow =>
  obtain ⟨-, rfl⟩ := Prod.mk.inj (ok.inj h)
  obtain ⟨-, hKey⟩ := Table.find_eq_some_iff.mp hRow
  rw [Table.find_set]
  by_cases hk : k = row.key
  · subst hk
    have hSame : row = r := by
      rw [hKey, hRow] at hr
      exact Option.some.inj hr
    subst hSame
    rw [if_pos rfl, hr]
    exact ⟨_, rfl, rfl, le_max_left _ _⟩
  · rw [if_neg hk]
    exact ⟨r, hr, .refl r⟩

theorem find_deleteExpired {limit : Int} {locked : CommandKey → Bool} {count : Nat}
    (h : deleteExpired db limit now locked = .ok (count, db')) (hr : db.outcomes.find k = some r) :
    db'.outcomes.find k = some r ∨ (db'.outcomes.find k = none ∧ r.expiresAt ≤ now) := by
  replace h := past_guard h
  obtain ⟨-, rfl⟩ := Prod.mk.inj (ok.inj h)
  rw [Table.find_keep, hr, Option.filter_some]
  split
  · exact .inl rfl
  next hExp =>
  refine .inr ⟨rfl, ?_⟩
  have hMem : r ∈ selectExpired db limit.toNat now locked := by simpa using hExp
  have hSel := List.mem_filter.mp (List.mem_mergeSort.mp (List.mem_of_mem_take hMem))
  have hDue := hSel.2
  simp only [Bool.and_eq_true, decide_eq_true_eq] at hDue
  exact hDue.1

end

variable {r : CommandOutcomeRow} {db : Database D}

theorem step_retains {server : Server D A} (op : Operation D A V) {k : CommandKey}
    (hr : db.outcomes.find k = some r) :
    (∃ r', (step server db op).outcomes.find k = some r' ∧ r.Retained r') ∨
    (∃ limit now locked, op = .deleteExpired limit now locked ∧
      (step server db op).outcomes.find k = none ∧ r.expiresAt ≤ now) := by
  cases op with
  | mutate m at_ =>
    left
    rw [step]
    cases hRun : runIdempotentMutation server db m at_ with
    | error fault => exact ⟨r, hr, .refl r⟩
    | ok done => exact ⟨r, find_runIdempotentMutation hRun hr, .refl r⟩
  | has c at_ =>
    left
    rw [step]
    cases hHas : has db c at_ with
    | error fault => exact ⟨r, hr, .refl r⟩
    | ok done => exact has_retains hHas hr
  | deleteExpired limit now locked =>
    rw [step]
    cases hDelete : deleteExpired db limit now locked with
    | error fault => exact .inl ⟨r, hr, .refl r⟩
    | ok done =>
      rcases find_deleteExpired hDelete hr with hKept | ⟨hGone, hDue⟩
      · exact .inl ⟨r, hKept, .refl r⟩
      · exact .inr ⟨limit, now, locked, rfl, hGone, hDue⟩

def Kept (server : Server D A) (k : CommandKey) : Database D → List (Operation D A V) → Prop
  | _, [] => True
  | db, op :: rest => ¬Deletes server db op k ∧ Kept server k (step server db op) rest

theorem run_retains {server : Server D A} {k : CommandKey} {ops : List (Operation D A V)}
    (hr : db.outcomes.find k = some r) (hKept : Kept server k db ops) :
    ∃ r', (run server db ops).outcomes.find k = some r' ∧ r.Retained r' := by
  induction ops generalizing db r with
  | nil => exact ⟨r, hr, .refl r⟩
  | cons op rest ih =>
    obtain ⟨hOp, hRest⟩ := hKept
    rcases step_retains op hr with ⟨next, hNext, hFirst⟩ | ⟨_, _, _, -, hGone, -⟩
    · obtain ⟨last, hLast, hSecond⟩ := ih hNext hRest
      exact ⟨last, hLast, hFirst.trans hSecond⟩
    · exact absurd ⟨by rw [hr]; rfl, hGone⟩ hOp

/-! ## Calls under a recorded key -/

section
variable {server : Server D A} {m : IdempotentMutation D A V} {db' : Database D} {at_ : Circumstances}
  {result : IdempotentResult V}

theorem replayed_of_recorded (business : D → β) (hr : db.outcomes.find m.command.key = some r)
    (h : runIdempotentMutation server db m at_ = .ok (result, db')) :
    Replayed business server m r db result db' := by
  rcases runIdempotentMutation_ok h with ⟨row, hRow, hReplay⟩ | ⟨hFree, -⟩
  · rw [hr] at hRow
    cases hRow
    exact replayRecordedOutcome_ok business hReplay
  · rw [hr] at hFree
    cases hFree

/-- Nothing on the way of a replay refuses the call, which ends with the value and the database. -/
structure Unhindered (server : Server D A) (m : IdempotentMutation D A V) (r : CommandOutcomeRow)
    (db : Database D) (at_ : Circumstances) (value : V) (db' : Database D) : Prop where
  valid : validMutation server m = true
  fences : lockIdempotentCommand server db m.command at_.inTime = .ok ()
  commits : at_.commits = true
  completes : ∃ v d d', m.decode r.outcome = .ok v ∧ hydrate m db.rest v = .ok (value, d) ∧
    completeReplayAudit server m r d value = .ok d' ∧
    completeOnboardingImportCommand { db with rest := d' } m.command value m.onboardingOutcome at_.now =
      .ok db'

theorem Unhindered.replays {value : V}
    (hFree : Unhindered server m r db at_ value db') (hr : db.outcomes.find m.command.key = some r)
    (hSame : Recorded r m.command) :
    runIdempotentMutation server db m at_ = .ok (⟨value, .replayed⟩, db') := by
  obtain ⟨v, d, d', hDec, hHydrate, hAudit, hComp⟩ := hFree.completes
  have hReplay : replayRecordedOutcome server db m r at_.now = .ok (⟨value, .replayed⟩, db') := by
    refine guard_ok_iff.mpr ⟨not_not.mpr hSame.1, guard_ok_iff.mpr ⟨not_not.mpr hSame.2, ?_⟩⟩
    refine bind_ok_iff.mpr ⟨v, by rw [decodeRecorded, hDec], ?_⟩
    refine bind_ok_iff.mpr ⟨(value, d), hHydrate, bind_ok_iff.mpr ⟨d', hAudit, ?_⟩⟩
    exact bind_ok_iff.mpr ⟨db', hComp, rfl⟩
  have hTransaction : runIdempotentMutationInTransaction server db m at_.now at_.inTime =
      .ok (⟨value, .replayed⟩, db') := by
    refine bind_ok_iff.mpr ⟨(), hFree.fences, ?_⟩
    rw [hr]
    exact hReplay
  refine guard_ok_iff.mpr ⟨by simp [hFree.valid], bind_ok_iff.mpr ⟨_, hTransaction, ?_⟩⟩
  exact guard_ok_iff.mpr ⟨by simp [hFree.commits], rfl⟩

def ExecutionFails (m : IdempotentMutation D A V) (d : D) : Prop :=
  (∃ fault, m.execute d = .error fault) ∨
    ∃ value d' fault, m.execute d = .ok (value, d') ∧ m.encode value = .error fault

theorem ExecutionFails.not_executed {db : Database D} (hFails : ExecutionFails m db.rest) (now : Instant)
    (done : IdempotentResult V × Database D) : executeAndRecordOutcome server db m now ≠ .ok done := by
  intro hExec
  obtain ⟨⟨value, d⟩, hValue, hRest⟩ := bind_ok hExec
  obtain ⟨encoded, hEnc, -⟩ := bind_ok hRest
  rcases hFails with ⟨fault, hFault⟩ | ⟨value', d', fault, hExecuted, hFault⟩
  · rw [hFault] at hValue
    cases hValue
  rw [hValue] at hExecuted
  cases hExecuted
  rw [hEnc] at hFault
  cases hFault

theorem unrecorded_of_disposition (business : D → β)
    (h : runIdempotentMutation server db m at_ = .ok (result, db')) (hNew : result.disposition ≠ .replayed) :
    db.outcomes.find m.command.key = none ∧
      (result.disposition = .executed → executeAndRecordOutcome server db m at_.now = .ok (result, db')) ∧
      (result.disposition = .duplicate → Duplicated business server m at_.now db result.value db') := by
  rcases runIdempotentMutation_ok h with ⟨row, hRow, hReplay⟩ | ⟨hFree, ⟨batch, hBatch, -, hDup⟩ | hExec⟩
  · exact absurd (replayRecordedOutcome_ok id hReplay).disposition hNew
  · obtain ⟨hDisposition, hDuplicated⟩ := recordDuplicateBatchOutcome_ok business hBatch hDup
    exact ⟨hFree, fun hExecuted => by simp [hDisposition] at hExecuted, fun _ => hDuplicated⟩
  · have hDisposition := (executeAndRecordOutcome_ok hExec).1
    exact ⟨hFree, fun _ => hExec, fun hDuplicate => by simp [hDisposition] at hDuplicate⟩

end

structure AnsweredFrom (business : D → β) (server : Server D A) (r : CommandOutcomeRow) (db : Database D)
    (m : IdempotentMutation D A V) (at_ : Circumstances) : Prop where
  replayed : ∀ result db', runIdempotentMutation server db m at_ = .ok (result, db') →
    Replayed business server m r db result db'
  refused : ¬Recorded r m.command → ∃ fault, runIdempotentMutation server db m at_ = .error fault
  /-- The recorded request goes through where nothing on its way refuses it. -/
  answers : Recorded r m.command → ∀ value db', Unhindered server m r db at_ value db' →
    runIdempotentMutation server db m at_ = .ok (⟨value, .replayed⟩, db')

theorem answeredFrom (business : D → β) (server : Server D A)
    {m : IdempotentMutation D A V} (at_ : Circumstances) (hr : db.outcomes.find m.command.key = some r) :
    AnsweredFrom business server r db m at_ where
  replayed _ _ h := replayed_of_recorded business hr h
  refused hOther := by
    cases hRun : runIdempotentMutation server db m at_ with
    | error fault => exact ⟨fault, rfl⟩
    | ok done => exact absurd (replayed_of_recorded business hr hRun).recorded hOther
  answers hSame _ _ hFree := hFree.replays hr hSame

/-- Between the recording of an outcome and its deletion every call under the key is answered from the
record; only an expired record is deleted; only an execution that is recorded with its outcome takes
effect; and a duplicate member of a batch is recorded without one. -/
theorem commands_take_effect_once (business : D → β) (server : Server D A) :
    (∀ (db db' : Database D) (m : IdempotentMutation D A V) (at_ : Circumstances)
        (result : IdempotentResult V),
      runIdempotentMutation server db m at_ = .ok (result, db') → result.disposition = .executed →
      db.outcomes.find m.command.key = none ∧ m.execute db.rest = .ok (result.value, db'.rest) ∧
        ImportsSettled m.command db db' ∧
        ∃ r, RecordedBy server m result.value at_.now r ∧ db'.outcomes.find m.command.key = some r) ∧
    (∀ (db db' : Database D) (m : IdempotentMutation D A V) (at_ : Circumstances)
        (result : IdempotentResult V),
      runIdempotentMutation server db m at_ = .ok (result, db') → result.disposition = .duplicate →
      db.outcomes.find m.command.key = none ∧ Duplicated business server m at_.now db result.value db') ∧
    (∀ (db : Database D) (k : CommandKey) (r : CommandOutcomeRow) (ops : List (Operation D A V)),
      db.outcomes.find k = some r → Kept server k db ops →
      ∃ r', r.Retained r' ∧ (run server db ops).outcomes.find k = some r' ∧
        ∀ (m : IdempotentMutation D A V) (at_ : Circumstances), m.command.key = k →
          AnsweredFrom business server r' (run server db ops) m at_) ∧
    (∀ (db : Database D) (op : Operation D A V) (k : CommandKey), Deletes server db op k →
      ∃ limit now locked r, op = .deleteExpired limit now locked ∧ db.outcomes.find k = some r ∧
        r.expiresAt ≤ now) ∧
    (∀ (db : Database D) (m : IdempotentMutation D A V) (at_ : Circumstances) (fault : Fault),
      runIdempotentMutation server db m at_ = .error fault →
      step server db (.mutate m at_ : Operation D A V) = db) ∧
    (∀ (db : Database D) (m : IdempotentMutation D A V) (at_ : Circumstances),
      db.outcomes.find m.command.key = none →
      (∀ batch ∈ m.command.batch, batch.duplicateOfKeyDigest = 0) → ExecutionFails m db.rest →
      ∃ fault, runIdempotentMutation server db m at_ = .error fault) := by
  refine ⟨?_, ?_, ?_, ?_, ?_, ?_⟩
  · intro db db' m at_ result h hExecuted
    obtain ⟨hFree, hExec, -⟩ := unrecorded_of_disposition business h (by simp [hExecuted])
    obtain ⟨-, hValue, hSettled, row, hRow, hIns⟩ := executeAndRecordOutcome_ok (hExec hExecuted)
    refine ⟨hFree, hValue, hSettled, row, hRow, ?_⟩
    rw [Table.find_insert hIns, hRow.1, if_pos rfl]
  · intro db db' m at_ result h hDuplicate
    obtain ⟨hFree, -, hDuplicated⟩ := unrecorded_of_disposition business h (by simp [hDuplicate])
    exact ⟨hFree, hDuplicated hDuplicate⟩
  · intro db k r ops hr hKept
    obtain ⟨r', hr', hRet⟩ := run_retains hr hKept
    refine ⟨r', hRet, hr', fun m at_ hKey => ?_⟩
    subst hKey
    exact answeredFrom business server at_ hr'
  · rintro db op k ⟨hSome, hGone⟩
    obtain ⟨r, hr⟩ := Option.isSome_iff_exists.mp hSome
    rcases step_retains op hr with ⟨r', hr', -⟩ | ⟨limit, now, locked, hOp, -, hDue⟩
    · rw [hr'] at hGone
      cases hGone
    · exact ⟨limit, now, locked, r, hOp, hr, hDue⟩
  · intro db m at_ fault h
    rw [step, h]
    rfl
  · intro db m at_ hFree hCanonical hFails
    cases hRun : runIdempotentMutation server db m at_ with
    | error fault => exact ⟨fault, rfl⟩
    | ok done =>
      rcases runIdempotentMutation_ok hRun with ⟨r, hr, -⟩ | ⟨-, ⟨batch, hBatch, hDup⟩ | hExec⟩
      · rw [hr] at hFree
        cases hFree
      · exact absurd (hCanonical batch hBatch) hDup.1
      · exact absurd hExec (hFails.not_executed at_.now done)

/-! ## A counter that two commands raise -/

def counterServer : Server (Nat × Bool) Unit where
  validCommandAuthorization _ := true
  lockCommandAuthorization db _ :=
    if db.rest.2 then .ok () else .error (.conflict "authorization" "authority")
  lockOnboardingImportRow _ _ _ := .ok ()
  completeBatchDuplicateAudit d _ _ := .ok d
  jsonValid _ := true
  jsonb document := some document
  references _ _ _ := true

def counterCommand (key : Digest) : CommandIdempotency Unit where
  userID := List.replicate 26 'y'
  operation := ['a', '.', 'b']
  keyDigest := key
  fingerprint := 7
  retention := 3000000
  wait := 1
  onboardingImportID := []
  onboardingImportRowNumber := 0
  authorization := some ()
  batch := none

/-- The command under the key: it changes the counter and the authority, and its replay reads the
counter again. -/
def counterMutation (key : Digest) (execute : Nat × Bool → Nat × Bool) :
    IdempotentMutation (Nat × Bool) Unit Nat where
  command := counterCommand key
  auditEventID := List.replicate 26 'b'
  execute d := .ok ((execute d).1, execute d)
  encode value := .ok [48 + UInt8.ofNat value]
  decode
    | [digit] => .ok (digit - 48).toNat
    | _ => .error (.refused "outcome")
  hydrateReplay := some fun d _ => .ok (d.1, d)
  completeReplay := some fun d _ _ => .ok d
  completeDuplicate := none
  freshAuditEventID := none
  onboardingOutcome := none

def raise : Nat × Bool → Nat × Bool := fun d => (d.1 + 1, d.2)

def revoke : Nat × Bool → Nat × Bool := fun d => (d.1, false)

def inTime : Circumstances := ⟨5, true, true⟩

def raised (keys : List Digest) : Database (Nat × Bool) :=
  run counterServer ⟨.empty, .empty, .empty, (0, true)⟩
    (keys.map fun key => .mutate (counterMutation key raise) inTime)

theorem commands_take_effect_once_counter :
    ∃ r, (raised [1, 2]).outcomes.find (counterCommand 1).key = some r ∧
      AnsweredFrom Prod.fst counterServer r (raised [1, 2]) (counterMutation 1 raise) inTime := by
  obtain ⟨-, -, hCalls, -⟩ := commands_take_effect_once (V := Nat) Prod.fst counterServer
  obtain ⟨r, hr⟩ : ∃ r, (raised [1]).outcomes.find (counterCommand 1).key = some r := ⟨_, rfl⟩
  have hKept : Kept counterServer (counterCommand 1).key (raised [1])
      [.mutate (counterMutation 2 raise) inTime] := by
    refine ⟨fun hDeletes => ?_, trivial⟩
    have hGone := hDeletes.2
    revert hGone
    decide
  obtain ⟨r', -, hr', hAnswers⟩ := hCalls _ _ r _ hr hKept
  exact ⟨r', hr', hAnswers _ _ rfl⟩

/-- The outcome of the first command decodes to one. Its replay, after the second command, reads the
counter again and answers two; without the authority it is refused. -/
theorem replay_is_hydrated_or_refused :
    (runIdempotentMutation counterServer (raised []) (counterMutation 1 raise) inTime).map (·.1) =
        .ok ⟨1, .executed⟩ ∧
      ((raised [1, 2]).outcomes.find (counterCommand 1).key).map
        (fun r => (counterMutation 1 raise).decode r.outcome) =
        some (.ok 1) ∧
      (runIdempotentMutation counterServer (raised [1, 2]) (counterMutation 1 raise) inTime).map (·.1) =
        .ok ⟨2, .replayed⟩ ∧ (runIdempotentMutation counterServer
          (step counterServer (raised [1]) (.mutate (counterMutation 3 revoke) inTime))
          (counterMutation 1 raise) inTime).map (·.1) =
        .error (.conflict "authorization" "authority") :=
  ⟨by decide, by decide, by decide, by decide⟩

end Proctor.Commands
