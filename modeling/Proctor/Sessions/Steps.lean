import Proctor.Fallible.Basic
import Proctor.Sessions.Store

/-! # What an operation that goes through has done

One lemma for each operation of the Session store; the proofs about rows and runs go through these
and do not look into the operations again. -/
namespace Proctor.Sessions

open Json Keyed Fallible List Option Except

variable {server : Server} {db db' : Database} {s session : Session}
  {c c' current newAccess newRefresh : SessionCredential} {at_ now : Instant}

theorem readSession_ok {f : Formats} {s' : Session} (h : readSession f s = .ok s') :
    s' = s ∧ s.validate f = none := by
  unfold readSession at h
  split at h
  · next hValid => exact ⟨(ok.inj h).symm, hValid⟩
  · cases h

theorem readCredential_ok (h : readCredential c = .ok c') : c' = c ∧ c.validate = none := by
  unfold readCredential at h
  split at h
  · next hValid => exact ⟨(ok.inj h).symm, hValid⟩
  · cases h

theorem prepared_ok (h : prepared c = .ok c') : c' = c ∧ c.validate = none := by
  unfold prepared at h
  split at h
  · next hValid => exact ⟨(ok.inj h).symm, hValid⟩
  · cases h

structure Inserts (db db' : Database) (c : SessionCredential) : Prop where
  rows : db'.credentials.rows = db.credentials.rows ++ [c]
  sessions : db'.sessions = db.sessions
  hash : ∀ d ∈ db.credentials.rows, d.tokenHash ≠ c.tokenHash
  id : ∀ d ∈ db.credentials.rows, d.id ≠ c.id
  owner : ∃ s ∈ db.sessions.rows, s.id = c.sessionID

theorem insertSessionCredential_ok (h : insertSessionCredential db c = .ok db') : Inserts db db' c := by
  obtain ⟨hChecks, h⟩ := guard_ok h
  simp only [Bool.or_eq_true, not_or, Bool.not_eq_true] at hChecks
  obtain ⟨⟨⟨hHash, hOwner⟩, -⟩, -⟩ := hChecks
  split at h
  · cases h
  next credentials hIns =>
  cases h
  obtain ⟨hFree, hRows⟩ := Table.insert_eq_some hIns
  obtain ⟨s, hs⟩ := isSome_iff_exists.mp (isNone_eq_false_iff.mp hOwner)
  refine ⟨hRows, rfl, fun d hd => ?_, Table.find_eq_none_iff.mp hFree, s, Table.find_eq_some_iff.mp hs⟩
  have hNot := any_eq_false.mp hHash d hd
  simpa using hNot

theorem insertSession_ok (h : insertSession db s = .ok db') :
    db'.sessions.rows = db.sessions.rows ++ [s] ∧ db'.credentials = db.credentials ∧
      ∀ other ∈ db.sessions.rows, other.id ≠ s.id := by
  unfold insertSession at h
  split at h
  · cases h
  next sessions hIns =>
  cases h
  obtain ⟨hFree, hRows⟩ := Table.insert_eq_some hIns
  exact ⟨hRows, rfl, Table.find_eq_none_iff.mp hFree⟩

structure Initial (session : Session) (c : SessionCredential) : Prop where
  owner : c.sessionID = session.id
  valid : c.validate = none
  unarchived : c.archivedAt = none
  lifetime : c.expiresAt ≤ session.expiresAt

theorem prepareInitialSessionCredentials_ok
    {inputs : List (SessionCredential × Drawn)} {kinds : List SessionCredentialKind}
    {out : List SessionCredential}
    (h : prepareInitialSessionCredentials session at_ inputs kinds = .ok out) :
    (∀ c ∈ out, Initial session c ∧ c.kind ∉ kinds) ∧ (out.map (·.kind)).Nodup := by
  induction inputs generalizing kinds out with
  | nil =>
    unfold prepareInitialSessionCredentials at h
    split at h
    · cases h
      exact ⟨nofun, nodup_nil⟩
    · cases h
  | cons input rest ih =>
    obtain ⟨c, drawn⟩ := input
    replace h := past_guard h
    obtain ⟨candidate, hCandidate, h⟩ := bind_ok h
    obtain ⟨hLifetime, h⟩ := guard_ok h
    obtain ⟨hKind, h⟩ := guard_ok h
    obtain ⟨others, hOthers, rfl⟩ := bind_pure_ok h
    obtain ⟨rfl, hValid⟩ := prepared_ok hCandidate
    obtain ⟨hAll, hNodup⟩ := ih hOthers
    have hNew : Initial session
        ({ c with sessionID := session.id }.prepareCreate drawn.id drawn.family at_) :=
      ⟨rfl, hValid, rfl, not_lt.mp hLifetime⟩
    constructor
    · intro d hd
      rcases mem_cons.mp hd with rfl | hRest
      · exact ⟨hNew, fun hIn => hKind (contains_iff_mem.mpr hIn)⟩
      · obtain ⟨hInitial, hFresh⟩ := hAll d hRest
        exact ⟨hInitial, fun hIn => hFresh (mem_cons_of_mem _ hIn)⟩
    · rw [map_cons, nodup_cons]
      refine ⟨fun hIn => ?_, hNodup⟩
      obtain ⟨d, hd, hSame⟩ := mem_map.mp hIn
      exact (hAll d hd).2 (hSame ▸ mem_cons_self)

structure Saves (server : Server) (db db' : Database) (s : Session) (cs : List SessionCredential) :
    Prop where
  sessions : db'.sessions.rows = db.sessions.rows ++ [s]
  inserts : ∃ base, base.sessions = db'.sessions ∧ base.credentials = db.credentials ∧
    cs.foldlM insertSessionCredential base = .ok db'
  fresh : ∀ other ∈ db.sessions.rows, other.id ≠ s.id
  valid : s.validate server.formats = none
  unarchived : s.archivedAt = none
  generation : requireSessionAuthenticationGeneration server s = .ok ()
  initial : ∀ c ∈ cs, Initial s c
  kinds : (cs.map (·.kind)).Nodup

theorem foldlM_insert_sessions {cs : List SessionCredential} {base : Database}
    (h : cs.foldlM insertSessionCredential base = .ok db') : db'.sessions = base.sessions := by
  induction cs generalizing base with
  | nil => rw [pure_ok h]
  | cons c rest ih =>
    obtain ⟨next, hNext, hRest⟩ := bind_ok h
    rw [ih hRest, (insertSessionCredential_ok hNext).sessions]

theorem save_ok {input : SessionCreation} (h : save server db input = .ok db') :
    ∃ s cs, Saves server db db' s cs := by
  replace h := past_guard h
  replace h := past_guard h
  dsimp only at h
  split at h
  · cases h
  next hValid =>
  replace h := past_guard h
  obtain ⟨cs, hInitial, h⟩ := bind_ok h
  replace h := past_guard h
  obtain ⟨⟨⟩, hGen, h⟩ := bind_ok h
  replace h := past_guard h
  obtain ⟨base, hBase, hIns⟩ := bind_ok h
  obtain ⟨hRows, hSame, hFresh⟩ := insertSession_ok hBase
  obtain ⟨hAll, hKinds⟩ := prepareInitialSessionCredentials_ok hInitial
  have hSess := foldlM_insert_sessions hIns
  exact ⟨_, cs, {
    sessions := by rw [hSess, hRows]
    inserts := ⟨base, hSess.symm, hSame, hIns⟩
    fresh := hFresh
    valid := hValid
    unarchived := rfl
    generation := hGen
    initial := fun c hc => (hAll c hc).1
    kinds := hKinds }⟩

theorem revokeOneUserSessionAt_ok {id userID : Text} {reason : SessionRevocationReason}
    (h : revokeOneUserSessionAt db id userID at_ reason = .ok db') :
    db' = (db.revokeSessions (fun s => s.id == id && s.userID == userID) (timeUTC at_) reason).revokeCredentials
      (fun c => c.sessionID == id) (timeUTC at_) := by
  unfold revokeOneUserSessionAt at h
  split at h
  · cases h
  · replace h := past_guard h
    exact (ok.inj h).symm

/-- Some Sessions were revoked for a valid reason, and with them credentials. -/
def Revokes (db db' : Database) : Prop :=
  ∃ selects picks at_ reason, reason.isValid = true ∧
    db' = (db.revokeSessions selects at_ reason).revokeCredentials picks at_

theorem withdraw_ok {input : SessionWithdrawal} (h : withdraw db input = .ok db') : Revokes db db' := by
  obtain ⟨hReason, h⟩ := guard_ok h
  refine ⟨_, _, _, input.reason, ?_, revokeOneUserSessionAt_ok h⟩
  cases hKind : input.reason <;> simp_all [SessionRevocationReason.isSystemWithdrawal,
    SessionRevocationReason.isValid]

theorem revoke_ok {input : SessionRevocation} (h : revoke server db input = .ok db') :
    db' = db ∨ Revokes db db' := by
  replace h := past_guard h
  obtain ⟨hReason, h⟩ := guard_ok h
  replace h := past_guard h
  split at h
  · split at h
    · exact .inl (ok.inj h).symm
    · cases h
  · obtain ⟨revoked, hRevk, h⟩ := bind_ok h
    obtain ⟨-, -, rfl⟩ := bind_pure_ok h
    exact .inr ⟨_, _, _, input.reason, by simpa using hReason, revokeOneUserSessionAt_ok hRevk⟩

theorem revokeAllForUser_ok {input : UserSessionsRevocation}
    (h : revokeAllForUser server db input = .ok db') : Revokes db db' := by
  replace h := past_guard h
  obtain ⟨hReason, h⟩ := guard_ok h
  replace h := past_guard h
  obtain ⟨-, -, h⟩ := bind_ok h
  exact ⟨_, _, _, input.reason, by simpa using hReason, (pure_ok h).symm⟩

theorem enforceExpiry_ok {input : SessionExpiryEnforcement}
    (h : enforceExpiry server db input = .ok db') : db' = db ∨ Revokes db db' := by
  replace h := past_guard h
  split at h
  · cases h
  obtain ⟨session, -, h⟩ := bind_ok h
  split at h
  · exact .inl (pure_ok h).symm
  · exact .inr ⟨_, _, _, .expired, rfl, revokeOneUserSessionAt_ok h⟩

theorem updateActivity_ok {input : SessionActivityUpdate} (h : updateActivity db input = .ok db') :
    ∃ s, db.sessions.find input.id = some s ∧ timeUTC input.lastActivityAt < s.expiresAt ∧
      db' = { db with
        sessions := db.sessions.set
          (activeSession (timeUTC input.lastActivityAt) (timeUTC input.idleExpiresAt) s) } := by
  unfold updateActivity at h
  split at h
  · cases h
  next s hs =>
  obtain ⟨hLive, h⟩ := guard_ok h
  simp only [not_or, not_le] at hLive
  exact ⟨s, hs, hLive.2.2.2, (ok.inj h).symm⟩

theorem upgradeSessionAuthentication_ok {input : SessionUpgrade}
    (h : upgradeSessionAuthentication server db input = .ok db') :
    ∃ s, db.sessions.find input.id = some s ∧
      (upgradedSession (timeUTC input.now) s).validate server.formats = none ∧
      db' = { db with sessions := db.sessions.set (upgradedSession (timeUTC input.now) s) } := by
  replace h := past_guard h
  split at h
  · cases h
  next s hs =>
  replace h := past_guard h
  obtain ⟨upgraded, hUpgraded, h⟩ := bind_ok h
  obtain ⟨rfl, hValid⟩ := readSession_ok hUpgraded
  exact ⟨s, hs, hValid, (pure_ok h).symm⟩

theorem presented_eq_some {hash : Text} (h : db.presented hash = some c) :
    c ∈ db.credentials.rows ∧ c.tokenHash = hash ∧ c.kind = .refresh ∧ c.archivedAt = none := by
  have hSel := find?_some h
  simp only [Bool.and_eq_true, beq_iff_eq, isNone_iff_eq_none] at hSel
  exact ⟨mem_of_find?_eq_some h, hSel.1.1, hSel.1.2, hSel.2⟩

structure Locks (server : Server) (db : Database) (hash : Text) (current : SessionCredential)
    (session : Session) : Prop where
  presented : db.presented hash = some current
  owner : db.sessions.find current.sessionID = some session
  unarchived : session.archivedAt = none
  credentialValid : current.validate = none
  sessionValid : session.validate server.formats = none

theorem lockRefreshCredentialSession_ok {hash : Text} {locked : SessionCredential × Session}
    (h : lockRefreshCredentialSession server db hash = .ok locked) :
    Locks server db hash locked.1 locked.2 := by
  unfold lockRefreshCredentialSession at h
  split at h
  · cases h
  next row hRow =>
  split at h
  · cases h
  next owner hOwner =>
  obtain ⟨current, hCur, h⟩ := bind_ok h
  obtain ⟨session, hSess, rfl⟩ := bind_pure_ok h
  obtain ⟨rfl, hCred⟩ := readCredential_ok hCur
  obtain ⟨rfl, hValid⟩ := readSession_ok hSess
  obtain ⟨hFound, hArchived⟩ := filter_eq_some_iff.mp hOwner
  exact ⟨hRow, hFound, isNone_iff_eq_none.mp hArchived, hCred, hValid⟩

theorem eq_of_id {t : Table SessionCredential.id} {d : SessionCredential} (hc : c ∈ t.rows)
    (hd : d ∈ t.rows) (hID : c.id = d.id) : c = d :=
  inj_on_of_nodup_map t.distinct hc hd hID

theorem mem_revokeAccess (session : Session) (now : Instant)
    (hc : c ∈ db.credentials.rows) (hKind : c.kind = .refresh) :
    c ∈ (db.revokeCredentials (fun c => c.sessionID == session.id && c.kind == .access) now).credentials.rows := by
  refine mem_map.mpr ⟨c, hc, ?_⟩
  simp [hKind]

/-- What a replacement of a refresh credential inserts and marks, statement by statement. -/
structure Replacement (db db' : Database) (session : Session)
    (current newAccess newRefresh : SessionCredential) (now : Instant) : Prop where
  chain : ∃ withAccess withRefresh,
    Inserts (db.revokeCredentials (fun c => c.sessionID == session.id && c.kind == .access) now)
      withAccess newAccess ∧
    Inserts withAccess withRefresh newRefresh ∧ db' = withRefresh.markUsed current.id now newRefresh.id

theorem replaceRefreshCredential_ok
    (h : replaceRefreshCredential db session current newAccess newRefresh now = .ok db') :
    Replacement db db' session current newAccess newRefresh now := by
  obtain ⟨withAccess, hAccess, h⟩ := bind_ok h
  obtain ⟨withRefresh, hFresh, h⟩ := bind_ok h
  exact ⟨withAccess, withRefresh, insertSessionCredential_ok hAccess, insertSessionCredential_ok hFresh,
    (pure_ok h).symm⟩

theorem Replacement.sessions (h : Replacement db db' session current newAccess newRefresh now) :
    db'.sessions = db.sessions := by
  obtain ⟨withAccess, withRefresh, hFirst, hSecond, rfl⟩ := h.chain
  exact hSecond.sessions.trans hFirst.sessions

structure Replaces (input : SessionRefreshRotation) (db db' : Database) (current : SessionCredential)
    (session : Session) : Prop where
  unused : current.usedAt = none
  unreplaced : current.replacedByID = []
  unrevoked : current.revokedAt = none
  sessionUnrevoked : session.revokedAt = none
  lifetime : timeUTC input.now < session.expiresAt
  expiry : timeUTC (timeUTC input.now) < current.expiresAt
  accessValid : (rotatedAccess input session (timeUTC input.now)).validate = none
  refreshValid : (rotatedRefresh input current session (timeUTC input.now)).validate = none
  replaced : ∃ replaced,
    replaceRefreshCredential db session current (rotatedAccess input session (timeUTC input.now))
      (rotatedRefresh input current session (timeUTC input.now)) (timeUTC input.now) = .ok replaced ∧
    db' = touchRotatedSession replaced session (timeUTC input.idleExpiresAt) (timeUTC input.now)

inductive Rotates (input : SessionRefreshRotation) (db : Database) (current : SessionCredential)
    (session : Session) : Database → Rotation → Prop
  | replay : current.usedAt ≠ none ∨ current.replacedByID ≠ [] →
      Rotates input db current session (revokeReplayedSession db session (timeUTC input.now))
        .replayDetected
  | expired {db' : Database} : Revokes db db' → Rotates input db current session db' .expired
  | rotated {db' : Database} : Replaces input db db' current session →
      Rotates input db current session db' .rotated

theorem rotateRefresh_ok {input : SessionRefreshRotation} {r : Rotation}
    (h : rotateRefresh server db input = .ok (db', r)) :
    ∃ current session, Locks server db input.tokenHash current session ∧
      Rotates input db current session db' r := by
  obtain ⟨⟨current, session⟩, hLocked, h⟩ := bind_ok (past_guard h)
  refine ⟨current, session, lockRefreshCredentialSession_ok hLocked, ?_⟩
  obtain ⟨-, -, h⟩ := bind_ok h
  split at h
  · next hUsed =>
    cases pure_ok h
    refine .replay ?_
    simpa [isSome_iff_ne_none] using hUsed
  · next hUnused =>
    obtain ⟨hRevk, h⟩ := guard_ok h
    split at h
    · obtain ⟨revoked, hRevoke, h⟩ := bind_ok h
      cases pure_ok h
      exact .expired ⟨_, _, _, .expired, rfl, revokeOneUserSessionAt_ok hRevoke⟩
    next hAlive =>
    obtain ⟨hLive, h⟩ := guard_ok h
    obtain ⟨newAccess, hAccess, h⟩ := bind_ok h
    obtain ⟨newRefresh, hFresh, h⟩ := bind_ok h
    obtain ⟨replaced, hReplaced, h⟩ := bind_ok h
    cases pure_ok h
    obtain ⟨rfl, hAccessValid⟩ := prepared_ok hAccess
    obtain ⟨rfl, hRefreshValid⟩ := prepared_ok hFresh
    simp only [Bool.or_eq_true, not_or, Bool.not_eq_true, decide_eq_true_eq, not_le,
      isSome_eq_false_iff, isNone_iff_eq_none] at hUnused hAlive hRevk
    simp only [SessionCredential.isExpiredAt, Bool.or_eq_true, not_or, Bool.not_eq_true,
      decide_eq_true_eq, not_le, isSome_eq_false_iff, isNone_iff_eq_none] at hLive
    exact .rotated ⟨hUnused.1, by simpa using hUnused.2, hLive.1.2, hRevk, hAlive.2, hLive.2, hAccessValid,
      hRefreshValid, replaced, hReplaced, rfl⟩

theorem purgeRetiredSessions_ok {input : SessionPurge} (h : purgeRetiredSessions db input = .ok db') :
    db' = ⟨db.sessions.keep fun s => !(input.purgeable db).contains s.id,
      db.credentials.keep fun c => !(input.purgeable db).contains c.sessionID⟩ := by
  replace h := past_guard h
  exact (ok.inj h).symm

theorem purgeRetiredCredentials_ok {input : SessionCredentialPurge}
    (h : purgeRetiredCredentials db input = .ok db') :
    db'.sessions = db.sessions ∧ ∀ c' ∈ db'.credentials.rows,
      ∃ c ∈ db.credentials.rows, c' = detached (input.selected db) input.now c := by
  replace h := past_guard h
  cases h
  refine ⟨rfl, fun c' hc' => ?_⟩
  obtain ⟨c, hc, rfl⟩ := mem_map.mp hc'
  exact ⟨c, mem_of_mem_filter hc, rfl⟩

end Proctor.Sessions
