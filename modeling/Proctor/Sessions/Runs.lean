import Proctor.Sessions.Rotation

/-! # Runs of the Session store

A run keeps the token hashes and the Session identifiers that were ever stored: tokens and
identifiers are drawn at random, so that no operation stores one that was stored before and has been
purged since. -/
namespace Proctor.Sessions

open Json Keyed Fallible List Option

variable {server : Server} {db db' : Database} {op : Operation} {s s' : State}
  {allowed : Database → Operation → Prop} {c : SessionCredential}

theorem perform_sound (h : Sound server db) (hPerf : op.perform server db = .ok db') :
    Sound server db' ∧ Extends db db' := by
  have hRet : Retires db db' → Sound server db' ∧ Extends db db' :=
    fun hRetires => ⟨h.retires hRetires, hRetires.extends⟩
  cases op with
  | save input => exact save_sound h hPerf
  | rotateRefresh input =>
    simp only [Operation.perform] at hPerf
    cases hRotate : rotateRefresh server db input with
    | error fault => rw [hRotate] at hPerf; cases hPerf
    | ok done =>
      obtain ⟨after, outcome⟩ := done
      rw [hRotate] at hPerf
      cases hPerf
      obtain ⟨current, session, hLocks, hWay⟩ := rotateRefresh_ok hRotate
      cases hWay with
      | replay =>
        exact hRet ((retires_revokeCredentials db _ _).trans (retires_revokeSessions _ _ _))
      | expired hRevokes => exact hRet hRevokes.retires
      | rotated hRepl =>
        obtain ⟨hSound, hExtends, -⟩ := rotated_sound h hLocks hRepl
        exact ⟨hSound, hExtends⟩
  | withdraw input => exact hRet (withdraw_ok hPerf).retires
  | revoke input =>
    rcases revoke_ok hPerf with rfl | hRevokes
    · exact hRet (.refl _)
    · exact hRet hRevokes.retires
  | revokeAllForUser input => exact hRet (revokeAllForUser_ok hPerf).retires
  | enforceExpiry input =>
    rcases enforceExpiry_ok hPerf with rfl | hRevokes
    · exact hRet (.refl _)
    · exact hRet hRevokes.retires
  | updateActivity input => exact hRet (updateActivity_retires hPerf)
  | upgrade input => exact hRet (upgrade_retires hPerf)
  | purgeSessions input => exact hRet (purgeSessions_retires hPerf)
  | purgeCredentials input => exact hRet (purgeCredentials_retires hPerf)

theorem step_sound (op : Operation) (h : Sound server db) :
    Sound server (step server db op) ∧ Extends db (step server db op) := by
  unfold step
  split
  · next db' hPerf => exact perform_sound h hPerf
  · exact ⟨h, (Retires.refl db).extends⟩

def yields (server : Server) (db : Database) : Operation → Option Text
  | .rotateRefresh input => match rotateRefresh server db input with
    | .ok (_, .rotated) => some input.tokenHash
    | _ => none
  | _ => none

structure History where
  hashes : List Text
  sessions : List Text
  yielded : List Text

structure State where
  db : Database
  history : History

def State.start : State := ⟨.empty, ⟨[], [], []⟩⟩

/-- What an operation stores was not stored before, unless it is still there. -/
structure Fresh (history : History) (db db' : Database) : Prop where
  hashes : ∀ c' ∈ db'.credentials.rows, c'.tokenHash ∈ history.hashes →
    ∃ c ∈ db.credentials.rows, c.tokenHash = c'.tokenHash
  sessions : ∀ s' ∈ db'.sessions.rows, s'.id ∈ history.sessions → ∃ s ∈ db.sessions.rows, s.id = s'.id

def State.next (server : Server) (s : State) (op : Operation) : State :=
  let db' := step server s.db op
  ⟨db', ⟨db'.credentials.rows.map (·.tokenHash) ++ s.history.hashes,
    db'.sessions.rows.map (·.id) ++ s.history.sessions,
    (yields server s.db op).toList ++ s.history.yielded⟩⟩

def Moves (server : Server) (allowed : Database → Operation → Prop) (s s' : State) : Prop :=
  ∃ op, allowed s.db op ∧ s' = s.next server op ∧ Fresh s.history s.db s'.db

def Runs (server : Server) (allowed : Database → Operation → Prop) : State → State → Prop :=
  Relation.ReflTransGen (Moves server allowed)

structure Traced (server : Server) (s : State) : Prop where
  sound : Sound server s.db
  stored : ∀ c ∈ s.db.credentials.rows, c.tokenHash ∈ s.history.hashes
  storedSessions : ∀ x ∈ s.db.sessions.rows, x.id ∈ s.history.sessions
  yieldedStored : ∀ hash ∈ s.history.yielded, hash ∈ s.history.hashes
  used : ∀ hash ∈ s.history.yielded, ∀ c ∈ s.db.credentials.rows, c.tokenHash = hash → c.usedAt ≠ none
  once : s.history.yielded.Nodup

theorem traced_start : Traced server .start where
  sound := {
    sessionsUnarchived := fun _ hs => absurd hs not_mem_nil
    credentialsUnarchived := fun _ hc => absurd hc not_mem_nil
    generation := fun _ hs => absurd hs not_mem_nil
    idle := fun _ hs => absurd hs not_mem_nil
    owned := fun _ hc => absurd hc not_mem_nil
    hashes := fun _ hc => absurd hc not_mem_nil
    access := fun _ hc => absurd hc not_mem_nil
    refresh := fun _ hc => absurd hc not_mem_nil }
  stored := fun _ hc => absurd hc not_mem_nil
  storedSessions := fun _ hs => absurd hs not_mem_nil
  yieldedStored := fun _ hIn => absurd hIn not_mem_nil
  used := fun _ hIn => absurd hIn not_mem_nil
  once := nodup_nil

theorem yields_eq_some {hash : Text} (h : Sound server db) (hYields : yields server db op = some hash) :
    (∃ c ∈ db.credentials.rows, c.tokenHash = hash ∧ c.usedAt = none) ∧
      ∀ c' ∈ (step server db op).credentials.rows, c'.tokenHash = hash → c'.usedAt ≠ none := by
  unfold yields at hYields
  split at hYields
  · next input =>
    split at hYields
    · next db' hRotate =>
      cases hYields
      obtain ⟨current, session, hLocks, hWay⟩ := rotateRefresh_ok hRotate
      obtain ⟨hMem, hHash, -, -⟩ := presented_eq_some hLocks.presented
      cases hWay with
      | rotated hRepl =>
        refine ⟨⟨current, hMem, hHash, hRepl.unused⟩, ?_⟩
        have hStep : step server db (.rotateRefresh input) = db' := by
          simp only [step, Operation.perform, hRotate, Except.map]
        rw [hStep]
        exact (rotated_sound h hLocks hRepl).2.2
    · cases hYields
  · cases hYields

theorem Traced.next (h : Traced server s)
    (hFresh : Fresh s.history s.db (s.next server op).db) : Traced server (s.next server op) := by
  obtain ⟨hSound, hExtends⟩ := step_sound op h.sound
  -- what was used before is used still: a row with its hash is the old row
  have hUsed : ∀ hash ∈ s.history.yielded, ∀ c' ∈ (step server s.db op).credentials.rows,
      c'.tokenHash = hash → c'.usedAt ≠ none := by
    intro hash hIn c' hc' hHash hNone
    obtain ⟨c, hc, hSame⟩ := hFresh.hashes c' hc' (hHash ▸ h.yieldedStored hash hIn)
    rcases hExtends.credentials c' hc' with ⟨old, hOld, hFrom⟩ | ⟨hNew, -⟩
    · exact h.used hash hIn old hOld (hFrom.tokenHash.symm.trans hHash) (hFrom.unused hNone)
    · exact hNew c hc hSame
  refine ⟨hSound, fun c hc => ?_, fun x hx => ?_, fun hash hIn => ?_, fun hash hIn => ?_, ?_⟩
  · exact mem_append_left _ (mem_map_of_mem hc)
  · exact mem_append_left _ (mem_map_of_mem hx)
  · rcases mem_append.mp hIn with hNow | hBefore
    · obtain ⟨⟨c, hc, rfl, -⟩, -⟩ := yields_eq_some h.sound (mem_toList.mp hNow)
      exact mem_append_right _ (h.stored c hc)
    · exact mem_append_right _ (h.yieldedStored hash hBefore)
  · rcases mem_append.mp hIn with hNow | hBefore
    · exact (yields_eq_some h.sound (mem_toList.mp hNow)).2
    · exact hUsed hash hBefore
  · refine nodup_append.mpr ⟨toList_nodup _, h.once, fun hash hNow other hBefore hSame => ?_⟩
    obtain ⟨⟨c, hc, hHash, hNone⟩, -⟩ := yields_eq_some h.sound (mem_toList.mp hNow)
    exact h.used other hBefore c hc (hHash.trans hSame) hNone

theorem Runs.traced (h : Runs server allowed s s') (hs : Traced server s) : Traced server s' := by
  induction h with
  | refl => exact hs
  | tail _ hMove ih =>
    obtain ⟨op, -, rfl, hFresh⟩ := hMove
    exact ih.next hFresh

theorem Runs.keeps_revoked {id : Text}
    (h : Runs server allowed s s') (hs : Traced server s) (hStored : id ∈ s.history.sessions)
    (hRevk : ∀ x ∈ s.db.sessions.rows, x.id = id → x.revokedAt ≠ none) :
    (∀ x ∈ s'.db.sessions.rows, x.id = id → x.revokedAt ≠ none) ∧
      ∀ c' ∈ s'.db.credentials.rows, c'.sessionID = id → c'.revokedAt = none →
        ∃ c ∈ s.db.credentials.rows, CredentialFrom c' c := by
  induction h with
  | refl => exact ⟨hRevk, fun c' hc' _ _ => ⟨c', hc', .refl c'⟩⟩
  | @tail mid last hRun hMove ih =>
    obtain ⟨op, -, rfl, hFresh⟩ := hMove
    have hMid := Runs.traced hRun hs
    have hStill : id ∈ mid.history.sessions := by
      clear ih hFresh hMid
      induction hRun with
      | refl => exact hStored
      | tail _ hMove ih =>
        obtain ⟨op, -, rfl, -⟩ := hMove
        exact mem_append_right _ ih
    obtain ⟨hSound, hExtends⟩ := step_sound op hMid.sound
    refine ⟨fun x' hx' hID hNone => ?_, fun c' hc' hOwner hNone => ?_⟩
    · rcases hExtends.sessions x' hx' with ⟨x, hx, hFrom⟩ | hNew
      · exact ih.1 x hx (hFrom.id.symm.trans hID) (hFrom.unrevoked hNone)
      · obtain ⟨x, hx, hSame⟩ := hFresh.sessions x' hx' (hID ▸ hStill)
        exact hNew x hx hSame
    · rcases hExtends.credentials c' hc' with ⟨c, hc, hFrom⟩ | ⟨-, hLive⟩
      · obtain ⟨first, hFirst, hChain⟩ :=
          ih.2 c hc (hFrom.sessionID.symm.trans hOwner) (hFrom.unrevoked hNone)
        exact ⟨first, hFirst, hFrom.trans hChain⟩
      -- the Session of a new credential would be a revoked one, or take the identifier again
      obtain ⟨x', hx', hOf, -⟩ := hSound.owned c' hc'
      rcases hExtends.sessions x' hx' with ⟨x, hx, hFrom⟩ | hNew
      · have hSame : x.id = c'.sessionID := hFrom.id.symm.trans hOf
        exact absurd (hLive x hx hSame) (ih.1 x hx (hSame.trans hOwner))
      · obtain ⟨x, hx, hSame⟩ := hFresh.sessions x' hx' (hOf.trans hOwner ▸ hStill)
        exact absurd hSame (hNew x hx)

/-! ## Replay -/

structure Revoked (db : Database) (id : Text) : Prop where
  sessions : ∀ x ∈ db.sessions.rows, x.id = id → x.revokedAt ≠ none
  credentials : ∀ c ∈ db.credentials.rows, c.sessionID = id → c.revokedAt ≠ none

theorem Sound.presented (h : Sound server db) (hc : c ∈ db.credentials.rows)
    (hKind : c.kind = .refresh) : db.presented c.tokenHash = some c := by
  cases hFound : db.presented c.tokenHash with
  | none =>
    have hMissed := find?_eq_none.mp hFound c hc
    simp [hKind, h.credentialsUnarchived c hc] at hMissed
  | some d =>
    obtain ⟨hd, hHash, -, -⟩ := presented_eq_some hFound
    rw [h.hashes d hd c hc hHash]

theorem revokeReplayedSession_revoked (h : Sound server db) (x : Session) (now : Instant) :
    Revoked (revokeReplayedSession db x now) x.id where
  sessions s' hs' hID hNone := by
    obtain ⟨s, hs, rfl⟩ := mem_map.mp hs'
    split at hID <;> rename_i hSel
    · simp only [hSel, if_true, revokedSession] at hNone
      cases hNone
    · simp only [hSel, Bool.false_eq_true, if_false] at hNone
      simp [hID, h.sessionsUnarchived s hs, hNone] at hSel
  credentials c' hc' hOwner hNone := by
    obtain ⟨c, hc, rfl⟩ := mem_map.mp hc'
    split at hOwner <;> rename_i hSel
    · simp only [hSel, if_true, revokedCredential] at hNone
      cases hNone
    · simp only [hSel, Bool.false_eq_true, if_false] at hNone
      simp [hOwner, h.credentialsUnarchived c hc, hNone] at hSel

def Legible (server : Server) (db : Database) (c : SessionCredential) : Prop :=
  c.validate = none ∧ ∀ x ∈ db.sessions.rows, x.id = c.sessionID → x.validate server.formats = none

theorem AllValid.legible (h : AllValid server.formats db)
    (hc : c ∈ db.credentials.rows) : Legible server db c :=
  ⟨h.credentials c hc, fun x hx _ => h.sessions x hx⟩

/-- The rotation presents the token of `c`, for two credentials that have no identifier yet. -/
structure SessionRefreshRotation.Presents (input : SessionRefreshRotation) (c : SessionCredential) :
    Prop where
  tokenHash : input.tokenHash = c.tokenHash
  access : input.access.id = []
  refresh : input.refresh.id = []

/-- A used token revokes its Session exactly when the rows can be read, or when there is nothing left
to revoke. -/
theorem replay_revokes_iff {input : SessionRefreshRotation} (h : Sound server db)
    (hc : c ∈ db.credentials.rows) (hKind : c.kind = .refresh) (hUsed : c.usedAt ≠ none)
    (hInput : input.Presents c) :
    Revoked (step server db (.rotateRefresh input)) c.sessionID ↔
      Legible server db c ∨ Revoked db c.sessionID := by
  obtain ⟨x, hx, hOwner, -⟩ := h.owned c hc
  have hPresented := h.presented hc hKind
  by_cases hLegible : Legible server db c
  · have hRotate : rotateRefresh server db input =
        .ok (revokeReplayedSession db x (timeUTC input.now), .replayDetected) := by
      have hFind : db.sessions.find c.sessionID = some x := Table.find_eq_some_iff.mpr ⟨hx, hOwner⟩
      have hLock : lockRefreshCredentialSession server db input.tokenHash = .ok (c, x) := by
        simp only [lockRefreshCredentialSession, hInput.tokenHash, hPresented, hFind, Option.filter,
          h.sessionsUnarchived x hx, Option.isNone_none, if_true, readCredential, hLegible.1,
          readSession_of_valid (hLegible.2 x hx hOwner)]
        rfl
      simp only [rotateRefresh, hInput.access, hInput.refresh, rotateRefreshCredential, hLock, bind,
        Except.bind, h.generation x hx, Option.isSome_iff_ne_none.mpr hUsed, Bool.true_or, if_true]
      rfl
    have hStep : step server db (.rotateRefresh input) =
        revokeReplayedSession db x (timeUTC input.now) := by
      simp only [step, Operation.perform, hRotate, Except.map]
    rw [hStep, ← hOwner]
    exact ⟨fun _ => .inl hLegible, fun _ => revokeReplayedSession_revoked h x _⟩
  · -- nothing was written, as the transaction stopped at the row
    have hStep : step server db (.rotateRefresh input) = db := by
      cases hRotate : rotateRefresh server db input with
      | error fault => simp only [step, Operation.perform, hRotate, Except.map]
      | ok done =>
        obtain ⟨current, session, hLocks, -⟩ := rotateRefresh_ok hRotate
        have hFound := hLocks.presented
        rw [hInput.tokenHash, hPresented] at hFound
        cases hFound
        refine absurd ⟨hLocks.credentialValid, fun y hy hID => ?_⟩ hLegible
        rw [session_eq_of_id hy (Table.find_eq_some_iff.mp hLocks.owner).1
          (hID.trans (Table.find_eq_some_iff.mp hLocks.owner).2.symm)]
        exact hLocks.sessionValid
    rw [hStep]
    exact ⟨.inr, fun hEither => hEither.resolve_left hLegible⟩

structure Guarded (db : Database) : Prop where
  access : ∀ s ∈ db.sessions.rows, s.revokedAt = none → ∀ c ∈ db.credentials.rows,
    ∀ d ∈ db.credentials.rows, c.sessionID = s.id → d.sessionID = s.id → LiveAccess c → LiveAccess d → c = d
  refresh : ∀ s ∈ db.sessions.rows, s.revokedAt = none → ∀ c ∈ db.credentials.rows,
    ∀ d ∈ db.credentials.rows, c.sessionID = s.id → d.sessionID = s.id → LiveRefresh c → LiveRefresh d →
      c = d
  credentials : ∀ c ∈ db.credentials.rows, ∃ s ∈ db.sessions.rows, s.id = c.sessionID ∧
    c.expiresAt ≤ s.expiresAt
  idle : ∀ s ∈ db.sessions.rows, s.idleExpiresAt ≤ s.expiresAt

theorem Sound.guarded (h : Sound server db) : Guarded db where
  access _ _ _ c hc d hd hOfC hOfD := h.access c hc d hd (hOfC.trans hOfD.symm)
  refresh _ _ _ c hc d hd hOfC hOfD := h.refresh c hc d hd (hOfC.trans hOfD.symm)
  credentials := h.owned
  idle := h.idle

theorem Reached.sound (h : Reached server allowed db) : Sound server db := by
  induction h with
  | start => exact traced_start.sound
  | next op _ _ ih => exact (step_sound op ih).1

/-- What holds in every run, and what a used token does: it revokes its Session when the rows can be
read, which timely runs ensure. -/
theorem rotation_is_one_time (server : Server) :
    (∀ db, Reached server (fun _ _ => True) db → Guarded db ∧
      ∀ c ∈ db.credentials.rows, c.kind = .refresh → c.usedAt ≠ none →
        ∀ input : SessionRefreshRotation, input.Presents c →
          (Revoked (step server db (.rotateRefresh input)) c.sessionID ↔
            Legible server db c ∨ Revoked db c.sessionID)) ∧
    (∀ db, Reached server (Timely server) db →
      ∀ c ∈ db.credentials.rows, c.kind = .refresh → c.usedAt ≠ none →
        ∀ input : SessionRefreshRotation, input.Presents c →
          Revoked (step server db (.rotateRefresh input)) c.sessionID) ∧
    ∀ s, Runs server (fun _ _ => True) .start s → s.history.yielded.Nodup ∧
      ∀ s', Runs server (fun _ _ => True) s s' → ∀ x ∈ s.db.sessions.rows, x.revokedAt ≠ none →
          ∀ c' ∈ s'.db.credentials.rows, c'.sessionID = x.id → c'.revokedAt = none →
            ∃ c ∈ s.db.credentials.rows, CredentialFrom c' c := by
  refine ⟨fun db hReach => ⟨hReach.sound.guarded, ?_⟩, ?_, fun s hRuns => ⟨?_, ?_⟩⟩
  · intro c hc hKind hUsed input hInput
    exact replay_revokes_iff hReach.sound hc hKind hUsed hInput
  · intro db hReach c hc hKind hUsed input hInput
    exact (replay_revokes_iff hReach.sound hc hKind hUsed hInput).mpr (.inl (hReach.allValid.legible hc))
  · exact (hRuns.traced traced_start).once
  · intro s' hLater x hx hRevk
    have hTraced := hRuns.traced traced_start
    refine (hLater.keeps_revoked hTraced (hTraced.storedSessions x hx) fun y hy hID => ?_).2
    rwa [session_eq_of_id hy hx hID]

def presentation (now idle : Instant) : SessionRefreshRotation where
  tokenHash := List.replicate 64 'f'
  access := newCredential .access '1'
  accessDrawn := drawn 'p'
  refresh := newCredential .refresh '2'
  refreshDrawn := drawn 'q'
  idleExpiresAt := idle
  now := now

def savedDatabase : Database := step plainServer .empty savedSession

def rotatedAt (now : Instant) : Database :=
  step plainServer savedDatabase (.rotateRefresh (presentation now 8000))

/-- A rotation by a node whose clock is behind: the used token is refused when it comes again, and the
Session goes on with both new credentials. -/
theorem replay_after_early_rotation :
    (rotatedAt 4000).credentials.rows.map (fun c => (c.usedAt.isSome, c.revokedAt.isSome)) =
        [(false, true), (true, false), (false, false), (false, false)] ∧
      (rotateRefresh plainServer (rotatedAt 4000) (presentation 7000 8000)).map (fun _ => ()) =
        .error (.invalidPersistedState "session" "last_activity_at") ∧
      (step plainServer (rotatedAt 4000) (.rotateRefresh (presentation 7000 8000))).sessions.rows.map
        (·.revokedAt) = [none] :=
  ⟨by decide +kernel, by decide +kernel, by decide +kernel⟩

theorem rotation_is_one_time_web :
    (rotatedAt 6000).credentials.rows.map (fun c => (c.usedAt.isSome, c.revokedAt.isSome)) =
        [(false, true), (true, false), (false, false), (false, false)] ∧
      Revoked (step plainServer (rotatedAt 6000) (.rotateRefresh (presentation 7000 8000)))
        (List.replicate 26 'n') := by
  refine ⟨by decide +kernel, ?_⟩
  have hUsed : ∃ c ∈ (rotatedAt 6000).credentials.rows, c.kind = .refresh ∧ c.usedAt ≠ none ∧
      (presentation 7000 8000).tokenHash = c.tokenHash ∧ c.sessionID = List.replicate 26 'n' := by
    decide +kernel
  obtain ⟨c, hc, hKind, hUsedAt, hHash, hOwner⟩ := hUsed
  rw [← hOwner]
  refine (rotation_is_one_time plainServer).2.1 _ ?_ c hc hKind hUsedAt _ ⟨hHash, rfl, rfl⟩
  have hCreated : ∀ s ∈ savedDatabase.sessions.rows, s.createdAt = 5000 := by
    decide +kernel
  refine .next _ (.next savedSession .start trivial) fun _ _ _ s _ hs => ?_
  rw [hCreated s (Table.find_eq_some_iff.mp hs).1]
  decide

/-! ## Presented tokens -/

def getSessionByTokenHash (server : Server) (db : Database) (tokenHash : Text)
    (kind : SessionCredentialKind) : Except Fault (SessionCredential × Session) :=
  match db.credentials.rows.find? fun c => c.tokenHash == tokenHash && c.kind == kind && c.archivedAt.isNone with
  | none => .error (.notFound "session_credential" tokenHash)
  -- `currentSessionRecoveryPredicate` is part of the query
  | some row => match (db.sessions.find row.sessionID).filter fun s => s.archivedAt.isNone &&
      (requireSessionAuthenticationGeneration server s).toBool with
    | none => .error (.notFound "session" row.sessionID)
    | some owner => do
      let credential ← readCredential row
      let session ← readSession server.formats owner
      pure (credential, session)

variable {hash : Text} {kind : SessionCredentialKind} {x : Session} {now : Instant}

theorem getSessionByTokenHash_ok (h : getSessionByTokenHash server db hash kind = .ok (c, x))
    (hLive : c.isExpiredAt now = false) :
    c ∈ db.credentials.rows ∧ (c.tokenHash = hash ∧ c.kind = kind) ∧ c.revokedAt = none := by
  unfold getSessionByTokenHash at h
  split at h
  · cases h
  next hRow =>
    split at h
    · cases h
    obtain ⟨_, hRead, h⟩ := bind_ok h
    obtain ⟨_, -, h⟩ := bind_pure_ok h
    cases h
    obtain ⟨rfl, -⟩ := readCredential_ok hRead
    have hPicked := find?_some hRow
    simp only [Bool.and_eq_true, beq_iff_eq] at hPicked
    exact ⟨mem_of_find?_eq_some hRow, hPicked.1, by simp_all [SessionCredential.isExpiredAt]⟩

def Dead (s : State) (hash : Text) : Prop :=
  hash ∈ s.history.hashes ∧ ∀ c ∈ s.db.credentials.rows, c.tokenHash = hash → c.revokedAt ≠ none

theorem Runs.keeps_dead (h : Runs server allowed s s') (hs : Traced server s) (hDead : Dead s hash) :
    Dead s' hash := by
  induction h with
  | refl => exact hDead
  | tail hRun hMove ih =>
    obtain ⟨op, -, rfl, hFresh⟩ := hMove
    refine ⟨mem_append_right _ ih.1, fun c' hc' hHash hNone => ?_⟩
    rcases (step_sound op (Runs.traced hRun hs).sound).2.credentials c' hc' with ⟨c, hc, hFrom⟩ | ⟨hNew, -⟩
    · exact ih.2 c hc (hFrom.tokenHash.symm.trans hHash) (hFrom.unrevoked hNone)
    · obtain ⟨c, hc, hSame⟩ := hFresh.hashes c' hc' (hHash ▸ ih.1)
      exact hNew c hc hSame

/-- A token that is found unexpired was not revoked at any earlier point of the run, and no other access
token is found unexpired for its Session. -/
theorem found_was_never_revoked (hStart : Runs server allowed .start s) (hLater : Runs server allowed s s')
    (hGet : getSessionByTokenHash server s'.db hash kind = .ok (c, x)) (hLive : c.isExpiredAt now = false) :
    (∀ d ∈ s.db.credentials.rows, d.tokenHash = hash → d.revokedAt = none) ∧
      (kind = .access → ∀ hash' d y, getSessionByTokenHash server s'.db hash' .access = .ok (d, y) →
        d.sessionID = c.sessionID → d.isExpiredAt now = false → hash' = hash) := by
  have hTraced := hStart.traced traced_start
  obtain ⟨hc, ⟨rfl, hKind⟩, hNone⟩ := getSessionByTokenHash_ok hGet hLive
  refine ⟨fun d hd hHash => ?_, fun hAccess hash' d y hGet' hOwner hLive' => ?_⟩
  · by_contra hDead
    refine (hLater.keeps_dead hTraced ⟨hHash ▸ hTraced.stored d hd, fun e he hSame => ?_⟩).2 c hc rfl hNone
    rwa [hTraced.sound.hashes e he d hd (hSame.trans hHash.symm)]
  · obtain ⟨hd, ⟨rfl, hKind'⟩, hNone'⟩ := getSessionByTokenHash_ok hGet' hLive'
    rw [(hLater.traced hTraced).sound.access d hd c hc hOwner ⟨hKind', hNone'⟩ ⟨hKind.trans hAccess, hNone⟩]

def savedState : State := State.start.next plainServer savedSession

def activeState : State := savedState.next plainServer (activityAt 6000)

def rotatedState : State := activeState.next plainServer (.rotateRefresh (presentation 7000 8000))

/-- After an activity and a rotation the used refresh token is still found, so the saved Session had not
revoked it; of its access tokens only the new one is found. -/
theorem found_was_never_revoked_rotated :
    ∃ old ∈ savedState.db.credentials.rows, ∃ new ∈ rotatedState.db.credentials.rows,
      old.tokenHash = replicate 64 'f' ∧ old.revokedAt = none ∧ new.tokenHash = replicate 64 '1' ∧
      ∀ hash d y, getSessionByTokenHash plainServer rotatedState.db hash .access = .ok (d, y) →
        d.sessionID = new.sessionID → d.isExpiredAt 7000 = false → hash = replicate 64 '1' := by
  have hStart : Runs plainServer (fun _ _ => True) .start savedState :=
    .single ⟨savedSession, trivial, rfl, fun _ _ => nofun, fun _ _ => nofun⟩
  have hLater : Runs plainServer (fun _ _ => True) savedState rotatedState :=
    .tail (.single ⟨activityAt 6000, trivial, rfl, by decide +kernel, by decide +kernel⟩)
      ⟨.rotateRefresh (presentation 7000 8000), trivial, rfl, by decide +kernel, by decide +kernel⟩
  have hFound : ∃ old ∈ savedState.db.credentials.rows, old.tokenHash = replicate 64 'f' ∧
      ∃ c ∈ rotatedState.db.credentials.rows, ∃ x ∈ rotatedState.db.sessions.rows,
        getSessionByTokenHash plainServer rotatedState.db (replicate 64 'f') .refresh = .ok (c, x) ∧
          c.isExpiredAt 7000 = false := by
    decide +kernel
  have hNew : ∃ new ∈ rotatedState.db.credentials.rows, new.tokenHash = replicate 64 '1' ∧
      ∃ x ∈ rotatedState.db.sessions.rows, getSessionByTokenHash plainServer rotatedState.db
        (replicate 64 '1') .access = .ok (new, x) ∧ new.isExpiredAt 7000 = false := by
    decide +kernel
  obtain ⟨old, hOld, hHash, c, -, x, -, hGet, hLive⟩ := hFound
  obtain ⟨new, hMem, hHash', y, -, hGet', hLive'⟩ := hNew
  exact ⟨old, hOld, new, hMem, hHash, (found_was_never_revoked hStart hLater hGet hLive).1 old hOld hHash,
    hHash', (found_was_never_revoked hStart hLater hGet' hLive').2 rfl⟩

end Proctor.Sessions
