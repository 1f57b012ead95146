import Proctor.Sessions.Validity

/-! # Rotation yields credentials once, and a replay revokes

Every operation but `Save` and a rotation only retires what is there: it revokes, marks used, moves
deadlines within the Session's lifetime and deletes. From what one operation does to the two tables
follow the uniqueness of the live credentials of a Session and, over runs, that no refresh token
yields credentials twice. -/
namespace Proctor.Sessions

open Json Keyed Fallible List

def LiveAccess (c : SessionCredential) : Prop := c.kind = .access ∧ c.revokedAt = none

def LiveRefresh (c : SessionCredential) : Prop :=
  c.kind = .refresh ∧ c.usedAt = none ∧ c.revokedAt = none

structure CredentialFrom (c' c : SessionCredential) : Prop where
  id : c'.id = c.id
  sessionID : c'.sessionID = c.sessionID
  kind : c'.kind = c.kind
  tokenHash : c'.tokenHash = c.tokenHash
  expiresAt : c'.expiresAt = c.expiresAt
  archivedAt : c'.archivedAt = c.archivedAt
  unused : c'.usedAt = none → c.usedAt = none
  unrevoked : c'.revokedAt = none → c.revokedAt = none

theorem CredentialFrom.refl (c : SessionCredential) : CredentialFrom c c :=
  ⟨rfl, rfl, rfl, rfl, rfl, rfl, fun hNone => hNone, fun hNone => hNone⟩

theorem CredentialFrom.trans {a b c : SessionCredential} (h : CredentialFrom a b)
    (h' : CredentialFrom b c) : CredentialFrom a c :=
  ⟨h.id.trans h'.id, h.sessionID.trans h'.sessionID, h.kind.trans h'.kind,
    h.tokenHash.trans h'.tokenHash, h.expiresAt.trans h'.expiresAt, h.archivedAt.trans h'.archivedAt,
    fun hNone => h'.unused (h.unused hNone), fun hNone => h'.unrevoked (h.unrevoked hNone)⟩

theorem CredentialFrom.liveAccess {c' c : SessionCredential} (h : CredentialFrom c' c)
    (hLive : LiveAccess c') : LiveAccess c :=
  ⟨h.kind ▸ hLive.1, h.unrevoked hLive.2⟩

theorem CredentialFrom.liveRefresh {c' c : SessionCredential} (h : CredentialFrom c' c)
    (hLive : LiveRefresh c') : LiveRefresh c :=
  ⟨h.kind ▸ hLive.1, h.unused hLive.2.1, h.unrevoked hLive.2.2⟩

structure SessionFrom (s' s : Session) : Prop where
  id : s'.id = s.id
  userID : s'.userID = s.userID
  generation : s'.authenticationGeneration = s.authenticationGeneration
  recovery : s'.mfaRecoveryRequired = s.mfaRecoveryRequired
  expiresAt : s'.expiresAt = s.expiresAt
  archivedAt : s'.archivedAt = s.archivedAt
  unrevoked : s'.revokedAt = none → s.revokedAt = none

theorem SessionFrom.refl (s : Session) : SessionFrom s s :=
  ⟨rfl, rfl, rfl, rfl, rfl, rfl, fun hNone => hNone⟩

theorem SessionFrom.trans {a b c : Session} (h : SessionFrom a b) (h' : SessionFrom b c) :
    SessionFrom a c :=
  ⟨h.id.trans h'.id, h.userID.trans h'.userID, h.generation.trans h'.generation,
    h.recovery.trans h'.recovery, h.expiresAt.trans h'.expiresAt, h.archivedAt.trans h'.archivedAt,
    fun hNone => h'.unrevoked (h.unrevoked hNone)⟩

def WithinLifetime (db : Database) : Prop := ∀ s ∈ db.sessions.rows, s.idleExpiresAt ≤ s.expiresAt

structure Retires (db db' : Database) : Prop where
  sessions : ∀ s' ∈ db'.sessions.rows, ∃ s ∈ db.sessions.rows, SessionFrom s' s
  credentials : ∀ c' ∈ db'.credentials.rows, ∃ c ∈ db.credentials.rows, CredentialFrom c' c
  owners : ∀ c' ∈ db'.credentials.rows, (∃ s ∈ db.sessions.rows, s.id = c'.sessionID) →
    ∃ s' ∈ db'.sessions.rows, s'.id = c'.sessionID
  idle : WithinLifetime db → WithinLifetime db'

theorem Retires.refl (db : Database) : Retires db db :=
  ⟨fun s hs => ⟨s, hs, .refl s⟩, fun c hc => ⟨c, hc, .refl c⟩, fun _ _ hOwner => hOwner, id⟩

theorem Retires.trans {a b c : Database} (h : Retires a b) (h' : Retires b c) : Retires a c where
  sessions s'' hs'' := by
    obtain ⟨s', hs', hLast⟩ := h'.sessions s'' hs''
    obtain ⟨s, hs, hFirst⟩ := h.sessions s' hs'
    exact ⟨s, hs, hLast.trans hFirst⟩
  credentials c'' hc'' := by
    obtain ⟨c', hc', hLast⟩ := h'.credentials c'' hc''
    obtain ⟨c, hc, hFirst⟩ := h.credentials c' hc'
    exact ⟨c, hc, hLast.trans hFirst⟩
  owners c'' hc'' hOwner := by
    obtain ⟨c', hc', hLast⟩ := h'.credentials c'' hc''
    refine h'.owners c'' hc'' ?_
    rw [hLast.sessionID] at hOwner ⊢
    exact h.owners c' hc' hOwner
  idle hLifetime := h'.idle (h.idle hLifetime)

section
variable {server : Server} {db db' : Database}

theorem retires_mapCredentials {f : SessionCredential → SessionCredential}
    (hKey : ∀ c, (f c).id = c.id) (hFrom : ∀ c, CredentialFrom (f c) c) :
    Retires db { db with credentials := db.credentials.mapRows f hKey } where
  sessions s hs := ⟨s, hs, .refl s⟩
  credentials c' hc' := by
    obtain ⟨c, hc, rfl⟩ := mem_map.mp hc'
    exact ⟨c, hc, hFrom c⟩
  owners _ _ hOwner := hOwner
  idle := id

theorem retires_mapSessions {f : Session → Session} (hKey : ∀ s, (f s).id = s.id)
    (hFrom : ∀ s ∈ db.sessions.rows, SessionFrom (f s) s)
    (hIdle : ∀ s ∈ db.sessions.rows, s.idleExpiresAt ≤ s.expiresAt →
      (f s).idleExpiresAt ≤ (f s).expiresAt) :
    Retires db { db with sessions := db.sessions.mapRows f hKey } where
  sessions s' hs' := by
    obtain ⟨s, hs, rfl⟩ := mem_map.mp hs'
    exact ⟨s, hs, hFrom s hs⟩
  credentials c hc := ⟨c, hc, .refl c⟩
  owners c hc hOwner := by
    obtain ⟨s, hs, hID⟩ := hOwner
    exact ⟨f s, mem_map_of_mem hs, (hKey s).trans hID⟩
  idle hLifetime s' hs' := by
    obtain ⟨s, hs, rfl⟩ := mem_map.mp hs'
    exact hIdle s hs (hLifetime s hs)

theorem retires_revokeCredentials (db : Database) (selects : SessionCredential → Bool) (at_ : Instant) :
    Retires db (db.revokeCredentials selects at_) := by
  refine retires_mapCredentials _ fun c => ?_
  split
  · exact ⟨rfl, rfl, rfl, rfl, rfl, rfl, id, nofun⟩
  · exact .refl c

theorem retires_revokeSessions (selects : Session → Bool) (at_ : Instant)
    (reason : SessionRevocationReason) : Retires db (db.revokeSessions selects at_ reason) := by
  refine retires_mapSessions _ (fun s _ => ?_) fun s _ hIdle => ?_
  · split
    · exact ⟨rfl, rfl, rfl, rfl, rfl, rfl, nofun⟩
    · exact .refl s
  · split
    · exact hIdle
    · exact hIdle

theorem Revokes.retires (h : Revokes db db') : Retires db db' := by
  obtain ⟨selects, picks, at_, reason, -, rfl⟩ := h
  exact (retires_revokeSessions selects at_ reason).trans (retires_revokeCredentials _ picks at_)

theorem retires_set {s s' : Session} (hs : db.sessions.find s'.id = some s) (hFrom : SessionFrom s' s)
    (hIdle : s.idleExpiresAt ≤ s.expiresAt → s'.idleExpiresAt ≤ s'.expiresAt) :
    Retires db { db with sessions := db.sessions.set s' } := by
  have hOnly : ∀ x ∈ db.sessions.rows, x.id = s'.id → x = s := by
    intro x hx hID
    exact Option.some.inj ((Table.find_eq_some_iff.mpr ⟨hx, hID⟩).symm.trans hs)
  refine retires_mapSessions _ (fun x hx => ?_) fun x hx hLifetime => ?_
  · split
    · next hID => exact hOnly x hx hID ▸ hFrom
    · exact .refl x
  · split
    · next hID => exact hIdle (hOnly x hx hID ▸ hLifetime)
    · exact hLifetime

theorem updateActivity_retires {input : SessionActivityUpdate} (h : updateActivity db input = .ok db') :
    Retires db db' := by
  obtain ⟨s, hs, -, rfl⟩ := updateActivity_ok h
  obtain ⟨-, hID⟩ := Table.find_eq_some_iff.mp hs
  exact retires_set (s := s) (show db.sessions.find s.id = some s from hID ▸ hs)
    ⟨rfl, rfl, rfl, rfl, rfl, rfl, id⟩ fun _ => min_le_right _ _

theorem upgrade_retires {input : SessionUpgrade}
    (h : upgradeSessionAuthentication server db input = .ok db') : Retires db db' := by
  obtain ⟨s, hs, -, rfl⟩ := upgradeSessionAuthentication_ok h
  obtain ⟨-, hID⟩ := Table.find_eq_some_iff.mp hs
  exact retires_set (s := s) (show db.sessions.find s.id = some s from hID ▸ hs)
    ⟨rfl, rfl, rfl, rfl, rfl, rfl, id⟩ id

theorem purgeSessions_retires {input : SessionPurge} (h : purgeRetiredSessions db input = .ok db') :
    Retires db db' := by
  obtain rfl := purgeRetiredSessions_ok h
  refine ⟨fun s hs => ⟨s, mem_of_mem_filter hs, .refl s⟩,
    fun c hc => ⟨c, mem_of_mem_filter hc, .refl c⟩, ?_,
    fun hLifetime s hs => hLifetime s (mem_of_mem_filter hs)⟩
  rintro c hc ⟨s, hs, hID⟩
  have hKept := (mem_filter.mp hc).2
  exact ⟨s, mem_filter.mpr ⟨hs, by rw [hID]; exact hKept⟩, hID⟩

theorem detached_from (deleted : List Text) (now : Instant) (c : SessionCredential) :
    CredentialFrom (detached deleted now c) c := by
  unfold detached
  split
  · exact ⟨rfl, rfl, rfl, rfl, rfl, rfl, id, id⟩
  · exact .refl c

theorem purgeCredentials_retires {input : SessionCredentialPurge}
    (h : purgeRetiredCredentials db input = .ok db') : Retires db db' := by
  obtain ⟨hSess, hRows⟩ := purgeRetiredCredentials_ok h
  refine ⟨fun s hs => ⟨s, hSess ▸ hs, .refl s⟩, fun c' hc' => ?_,
    fun _ _ hOwner => hSess ▸ hOwner, fun hLifetime s hs => hLifetime s (hSess ▸ hs)⟩
  obtain ⟨c, hc, rfl⟩ := hRows c' hc'
  exact ⟨c, hc, detached_from _ _ c⟩

/-! ## What holds of the tables -/

/-- At most one credential of a Session has the property. -/
def OnePerSession (P : SessionCredential → Prop) (rows : List SessionCredential) : Prop :=
  ∀ c ∈ rows, ∀ d ∈ rows, c.sessionID = d.sessionID → P c → P d → c = d

structure Sound (server : Server) (db : Database) : Prop where
  sessionsUnarchived : ∀ s ∈ db.sessions.rows, s.archivedAt = none
  credentialsUnarchived : ∀ c ∈ db.credentials.rows, c.archivedAt = none
  generation : ∀ s ∈ db.sessions.rows, requireSessionAuthenticationGeneration server s = .ok ()
  idle : WithinLifetime db
  owned : ∀ c ∈ db.credentials.rows, ∃ s ∈ db.sessions.rows, s.id = c.sessionID ∧ c.expiresAt ≤ s.expiresAt
  hashes : ∀ c ∈ db.credentials.rows, ∀ d ∈ db.credentials.rows, c.tokenHash = d.tokenHash → c = d
  access : OnePerSession LiveAccess db.credentials.rows
  refresh : OnePerSession LiveRefresh db.credentials.rows

theorem session_eq_of_id {t : Table Session.id} {s s' : Session} (hs : s ∈ t.rows) (hs' : s' ∈ t.rows)
    (hID : s.id = s'.id) : s = s' :=
  inj_on_of_nodup_map t.distinct hs hs' hID

variable {P : SessionCredential → Prop}

theorem OnePerSession.retires (h : OnePerSession P db.credentials.rows) (hRetires : Retires db db')
    (hLive : ∀ c' c, CredentialFrom c' c → P c' → P c) : OnePerSession P db'.credentials.rows := by
  intro c' hc' d' hd' hSess hLiveC hLiveD
  obtain ⟨c, hc, hFrom⟩ := hRetires.credentials c' hc'
  obtain ⟨d, hd, hFrom'⟩ := hRetires.credentials d' hd'
  have hSame := h c hc d hd (by rw [← hFrom.sessionID, hSess, hFrom'.sessionID])
    (hLive c' c hFrom hLiveC) (hLive d' d hFrom' hLiveD)
  exact eq_of_id hc' hd' (by rw [hFrom.id, hSame, hFrom'.id])

theorem Sound.retires (h : Sound server db) (hRetires : Retires db db') : Sound server db' where
  sessionsUnarchived s' hs' := by
    obtain ⟨s, hs, hFrom⟩ := hRetires.sessions s' hs'
    rw [hFrom.archivedAt, h.sessionsUnarchived s hs]
  credentialsUnarchived c' hc' := by
    obtain ⟨c, hc, hFrom⟩ := hRetires.credentials c' hc'
    rw [hFrom.archivedAt, h.credentialsUnarchived c hc]
  generation s' hs' := by
    obtain ⟨s, hs, hFrom⟩ := hRetires.sessions s' hs'
    have hSame := h.generation s hs
    unfold requireSessionAuthenticationGeneration at hSame ⊢
    rwa [hFrom.userID, hFrom.generation, hFrom.recovery]
  idle := hRetires.idle h.idle
  owned c' hc' := by
    obtain ⟨c, hc, hFrom⟩ := hRetires.credentials c' hc'
    obtain ⟨s, hs, hID, hLifetime⟩ := h.owned c hc
    obtain ⟨s', hs', hID'⟩ := hRetires.owners c' hc' ⟨s, hs, hFrom.sessionID ▸ hID⟩
    obtain ⟨old, hOld, hSess⟩ := hRetires.sessions s' hs'
    have hSame : old = s :=
      session_eq_of_id hOld hs (by rw [← hSess.id, hID', hFrom.sessionID, hID])
    exact ⟨s', hs', hID', by rw [hFrom.expiresAt, hSess.expiresAt, hSame]; exact hLifetime⟩
  hashes c' hc' d' hd' hHash := by
    obtain ⟨c, hc, hFrom⟩ := hRetires.credentials c' hc'
    obtain ⟨d, hd, hFrom'⟩ := hRetires.credentials d' hd'
    have hSame := h.hashes c hc d hd (by rw [← hFrom.tokenHash, hHash, hFrom'.tokenHash])
    exact eq_of_id hc' hd' (by rw [hFrom.id, hSame, hFrom'.id])
  access := h.access.retires hRetires fun _ _ => CredentialFrom.liveAccess
  refresh := h.refresh.retires hRetires fun _ _ => CredentialFrom.liveRefresh

structure Fits (db : Database) (c : SessionCredential) : Prop where
  hash : ∀ d ∈ db.credentials.rows, d.tokenHash ≠ c.tokenHash
  owner : ∃ s ∈ db.sessions.rows, s.id = c.sessionID ∧ c.expiresAt ≤ s.expiresAt
  unarchived : c.archivedAt = none
  access : ∀ d ∈ db.credentials.rows, d.sessionID = c.sessionID → LiveAccess d → ¬LiveAccess c
  refresh : ∀ d ∈ db.credentials.rows, d.sessionID = c.sessionID → LiveRefresh d → ¬LiveRefresh c

variable {c : SessionCredential}

theorem eq_of_mem_append {rows : List SessionCredential}
    {R : SessionCredential → SessionCredential → Prop} (hSymm : ∀ a b, R a b → R b a)
    (hOld : ∀ a ∈ rows, ∀ b ∈ rows, R a b → a = b) (hNew : ∀ a ∈ rows, ¬R a c)
    {a b : SessionCredential} (ha : a ∈ rows ++ [c]) (hb : b ∈ rows ++ [c]) (hR : R a b) : a = b := by
  rcases mem_append.mp ha with haOld | haNew <;> rcases mem_append.mp hb with hbOld | hbNew
  · exact hOld a haOld b hbOld hR
  · rw [mem_singleton.mp hbNew] at hR
    exact absurd hR (hNew a haOld)
  · rw [mem_singleton.mp haNew] at hR
    exact absurd (hSymm _ _ hR) (hNew b hbOld)
  · rw [mem_singleton.mp haNew, mem_singleton.mp hbNew]

theorem OnePerSession.append {rows : List SessionCredential} (h : OnePerSession P rows)
    (hNew : ∀ a ∈ rows, a.sessionID = c.sessionID → P a → ¬P c) : OnePerSession P (rows ++ [c]) := by
  intro a ha b hb hSess hLive hLive'
  exact eq_of_mem_append (R := fun a b => a.sessionID = b.sessionID ∧ P a ∧ P b)
    (fun _ _ hR => ⟨hR.1.symm, hR.2.2, hR.2.1⟩) (fun x hx y hy hR => h x hx y hy hR.1 hR.2.1 hR.2.2)
    (fun x hx hR => hNew x hx hR.1 hR.2.1 hR.2.2) ha hb ⟨hSess, hLive, hLive'⟩

theorem Sound.append (h : Sound server db) (hFits : Fits db c)
    (hRows : db'.credentials.rows = db.credentials.rows ++ [c]) (hSessions : db'.sessions = db.sessions) :
    Sound server db' where
  sessionsUnarchived := by rw [hSessions]; exact h.sessionsUnarchived
  credentialsUnarchived := by
    rw [hRows]
    exact forall_mem_append.mpr ⟨h.credentialsUnarchived, forall_mem_singleton.mpr hFits.unarchived⟩
  generation := by rw [hSessions]; exact h.generation
  idle s hs := h.idle s (hSessions ▸ hs)
  owned := by
    rw [hRows, hSessions]
    exact forall_mem_append.mpr ⟨h.owned, forall_mem_singleton.mpr hFits.owner⟩
  hashes a ha b hb hHash := by
    rw [hRows] at ha hb
    exact eq_of_mem_append (R := fun a b => a.tokenHash = b.tokenHash) (fun _ _ hEq => hEq.symm)
      h.hashes hFits.hash ha hb hHash
  access := by
    rw [hRows]
    exact h.access.append hFits.access
  refresh := by
    rw [hRows]
    exact h.refresh.append hFits.refresh

/-! ## What one operation adds -/

/-- Every row after an operation is a row before it, at most further retired, or a new one: a
credential with a new token hash for a Session that is not revoked, a Session with a new identifier. -/
structure Extends (db db' : Database) : Prop where
  sessions : ∀ s' ∈ db'.sessions.rows, (∃ s ∈ db.sessions.rows, SessionFrom s' s) ∨
    ∀ s ∈ db.sessions.rows, s.id ≠ s'.id
  credentials : ∀ c' ∈ db'.credentials.rows, (∃ c ∈ db.credentials.rows, CredentialFrom c' c) ∨
    (∀ c ∈ db.credentials.rows, c.tokenHash ≠ c'.tokenHash) ∧
      ∀ s ∈ db.sessions.rows, s.id = c'.sessionID → s.revokedAt = none

theorem Retires.extends (h : Retires db db') : Extends db db' :=
  ⟨fun s' hs' => .inl (h.sessions s' hs'), fun c' hc' => .inl (h.credentials c' hc')⟩

/-- The insertions of `Save`, one after the other: what is there before the credentials that are
still to come. -/
structure Saving (server : Server) (db base : Database) (s : Session) (rest : List SessionCredential) :
    Prop where
  sound : Sound server base
  session : s ∈ base.sessions.rows
  kinds : ∀ d ∈ base.credentials.rows, d.sessionID = s.id → d.kind ∉ rest.map (·.kind)
  old : ∀ c ∈ db.credentials.rows, c ∈ base.credentials.rows
  added : ∀ d ∈ base.credentials.rows, d ∈ db.credentials.rows ∨
    (∀ c ∈ db.credentials.rows, c.tokenHash ≠ d.tokenHash) ∧ d.sessionID = s.id

variable {s : Session}

theorem Saving.insert {base next : Database}
    {rest : List SessionCredential} (h : Saving server db base s (c :: rest)) (hInitial : Initial s c)
    (hKinds : c.kind ∉ rest.map (·.kind)) (hIns : Inserts base next c) :
    Saving server db next s rest where
  sound := by
    have hOther : ∀ d ∈ base.credentials.rows, d.sessionID = c.sessionID → d.kind ≠ c.kind := by
      intro d hd hSess hSame
      refine h.kinds d hd (hSess.trans hInitial.owner) ?_
      rw [hSame]
      exact mem_cons_self
    refine h.sound.append ⟨hIns.hash, ⟨s, h.session, hInitial.owner.symm, hInitial.lifetime⟩,
      hInitial.unarchived, ?_, ?_⟩ hIns.rows hIns.sessions
    · intro d hd hSess hLive hLive'
      exact hOther d hd hSess (hLive.1.trans hLive'.1.symm)
    · intro d hd hSess hLive hLive'
      exact hOther d hd hSess (hLive.1.trans hLive'.1.symm)
  session := by rw [hIns.sessions]; exact h.session
  kinds := by
    rw [hIns.rows]
    exact forall_mem_append.mpr ⟨fun d hd hSess hIn => h.kinds d hd hSess (mem_cons_of_mem _ hIn),
      forall_mem_singleton.mpr fun _ => hKinds⟩
  old d hd := by
    rw [hIns.rows]
    exact mem_append_left _ (h.old d hd)
  added := by
    rw [hIns.rows]
    exact forall_mem_append.mpr ⟨h.added,
      forall_mem_singleton.mpr (.inr ⟨fun x hx => hIns.hash x (h.old x hx), hInitial.owner⟩)⟩

variable {base : Database}

theorem Saving.inserts {cs : List SessionCredential}
    (h : Saving server db base s cs) (hInitial : ∀ c ∈ cs, Initial s c)
    (hKinds : (cs.map (·.kind)).Nodup) (hFold : cs.foldlM insertSessionCredential base = .ok db') :
    Saving server db db' s [] := by
  induction cs generalizing base with
  | nil => exact pure_ok hFold ▸ h
  | cons c rest ih =>
    obtain ⟨next, hNext, hRest⟩ := bind_ok hFold
    obtain ⟨hFirst, hOthers⟩ := nodup_cons.mp hKinds
    exact ih (h.insert (hInitial c mem_cons_self) hFirst (insertSessionCredential_ok hNext))
      (fun d hd => hInitial d (mem_cons_of_mem _ hd)) hOthers hRest

theorem Sound.addSession (h : Sound server db) (hSaves : ∃ cs, Saves server db db' s cs)
    (hSess : base.sessions = db'.sessions)
    (hCreds : base.credentials = db.credentials) : Sound server base := by
  obtain ⟨cs, hSaves⟩ := hSaves
  have hRows : base.sessions.rows = db.sessions.rows ++ [s] := by rw [hSess, hSaves.sessions]
  have hEach : ∀ {P : Session → Prop}, (∀ x ∈ db.sessions.rows, P x) → P s →
      ∀ x ∈ base.sessions.rows, P x := by
    intro P hOld hNew
    rw [hRows]
    exact forall_mem_append.mpr ⟨hOld, forall_mem_singleton.mpr hNew⟩
  exact {
    sessionsUnarchived := hEach h.sessionsUnarchived hSaves.unarchived
    credentialsUnarchived := by rw [hCreds]; exact h.credentialsUnarchived
    generation := hEach h.generation hSaves.generation
    idle := hEach h.idle (Session.validate_eq_none_iff.mp hSaves.valid).2.lifetime
    owned := fun c hc => by
      rw [hCreds] at hc
      obtain ⟨x, hx, hOwner⟩ := h.owned c hc
      exact ⟨x, by rw [hRows]; exact mem_append_left _ hx, hOwner⟩
    hashes := by rw [hCreds]; exact h.hashes
    access := by rw [hCreds]; exact h.access
    refresh := by rw [hCreds]; exact h.refresh }

theorem save_sound {input : SessionCreation} (h : Sound server db)
    (hSave : save server db input = .ok db') : Sound server db' ∧ Extends db db' := by
  obtain ⟨s, cs, hSaves⟩ := save_ok hSave
  obtain ⟨base, hSess, hCreds, hFold⟩ := hSaves.inserts
  -- no credential names the new Session before the first of its own is there
  have hUnnamed : ∀ d ∈ db.credentials.rows, d.sessionID ≠ s.id := by
    intro d hd hSame
    obtain ⟨owner, hOwner, hID, -⟩ := h.owned d hd
    exact hSaves.fresh owner hOwner (hID.trans hSame)
  have hStart : Saving server db base s cs := {
    sound := h.addSession ⟨cs, hSaves⟩ hSess hCreds
    session := by rw [hSess, hSaves.sessions]; exact mem_append_right _ mem_cons_self
    kinds := fun d hd hSame => absurd hSame (hUnnamed d (hCreds ▸ hd))
    old := fun c hc => hCreds ▸ hc
    added := fun d hd => .inl (hCreds ▸ hd) }
  have hDone := hStart.inserts hSaves.initial hSaves.kinds hFold
  refine ⟨hDone.sound, ?_, fun c' hc' => ?_⟩
  · rw [hSaves.sessions]
    exact forall_mem_append.mpr ⟨fun s' hs' => .inl ⟨s', hs', .refl s'⟩,
      forall_mem_singleton.mpr (.inr hSaves.fresh)⟩
  · rcases hDone.added c' hc' with hOld | ⟨hHash, hOwner⟩
    · exact .inl ⟨c', hOld, .refl c'⟩
    · exact .inr ⟨hHash, fun x hx hID => absurd (hID.trans hOwner) (hSaves.fresh x hx)⟩

/-! ## Rotation -/

theorem retires_markUsed (db : Database) (id : Text) (now : Instant) (replacement : Text) :
    Retires db (db.markUsed id now replacement) := by
  refine retires_mapCredentials _ fun c => ?_
  split
  · exact ⟨rfl, rfl, rfl, rfl, rfl, rfl, nofun, fun hNone => hNone⟩
  · exact .refl c

theorem markUsed_inserts {id : Text} (now : Instant)
    (replacement : Text) (hIns : Inserts db base c) (hOther : c.id ≠ id) :
    (base.markUsed id now replacement).credentials.rows =
      (db.markUsed id now replacement).credentials.rows ++ [c] := by
  simp only [Database.markUsed, Table.mapRows]
  rw [hIns.rows, map_append, map_singleton, if_neg (by simp [hOther])]

variable {session : Session}

theorem touchRotatedSession_retires (idle now : Instant)
    (hMem : session ∈ db.sessions.rows) : Retires db (touchRotatedSession db session idle now) := by
  refine retires_mapSessions _ (fun s hs => ?_) fun s hs hIdle => ?_
  · split
    · exact ⟨rfl, rfl, rfl, rfl, rfl, rfl, fun hNone => hNone⟩
    · exact .refl s
  split
  · next hPicked =>
    simp only [Bool.and_eq_true, beq_iff_eq] at hPicked
    obtain rfl := session_eq_of_id hs hMem hPicked.1
    exact min_le_right _ _
  · exact hIdle

theorem timeUTC_le (t : Instant) : timeUTC t ≤ t := Nat.div_mul_le_self t 1000

structure Successor (session : Session) (kind : SessionCredentialKind) (c : SessionCredential) : Prop where
  kind : c.kind = kind
  owner : c.sessionID = session.id
  unarchived : c.archivedAt = none
  lifetime : c.expiresAt ≤ session.expiresAt

/-- The tables of a replacement before its insertions: the access credentials are revoked, the
presented refresh credential is used. -/
structure Cleared (server : Server) (db cleared : Database) (session : Session)
    (current : SessionCredential) : Prop where
  sound : Sound server cleared
  retires : Retires db cleared
  used : ∀ d ∈ cleared.credentials.rows, d.id = current.id → d.usedAt ≠ none
  noAccess : ∀ d ∈ cleared.credentials.rows, d.sessionID = session.id → ¬LiveAccess d
  noRefresh : ∀ d ∈ cleared.credentials.rows, d.sessionID = session.id → ¬LiveRefresh d

theorem Retires.hash_ne {hash : Text} (h : Retires db db') (hNe : ∀ c ∈ db.credentials.rows, c.tokenHash ≠ hash) :
    ∀ d ∈ db'.credentials.rows, d.tokenHash ≠ hash := by
  intro d hd
  obtain ⟨c, hc, hFrom⟩ := h.credentials d hd
  rw [hFrom.tokenHash]
  exact hNe c hc

theorem cleared_of_sound {current : SessionCredential} (now : Instant)
    (replacement : Text) (h : Sound server db) (hMem : current ∈ db.credentials.rows)
    (hLive : LiveRefresh current) (hUnreplaced : current.replacedByID = [])
    (hOwner : current.sessionID = session.id) : Cleared server db
      ((db.revokeCredentials (fun c => c.sessionID == session.id && c.kind == .access) now).markUsed
        current.id now replacement) session current := by
  have hRevokes := retires_revokeCredentials db
    (fun c => c.sessionID == session.id && c.kind == .access) now
  have hMarks := retires_markUsed
    (db.revokeCredentials (fun c => c.sessionID == session.id && c.kind == .access) now)
    current.id now replacement
  have hRetires := hRevokes.trans hMarks
  have hUsed : ∀ d ∈ ((db.revokeCredentials (fun c => c.sessionID == session.id && c.kind == .access)
      now).markUsed current.id now replacement).credentials.rows, d.id = current.id → d.usedAt ≠ none := by
    intro d hd hID
    obtain ⟨e, he, rfl⟩ := mem_map.mp hd
    have hSame : e = current := by
      refine eq_of_id he (mem_revokeAccess session now hMem hLive.1) ?_
      split at hID <;> exact hID
    rw [hSame, if_pos (by simp [hLive.2.1, hUnreplaced])]
    nofun
  refine ⟨h.retires hRetires, hRetires, hUsed, ?_, ?_⟩
  · intro d hd hSess hAccess
    obtain ⟨e, he, hFrom⟩ := hMarks.credentials d hd
    have hAccess' := hFrom.liveAccess hAccess
    obtain ⟨c, hc, rfl⟩ := mem_map.mp he
    split at hAccess'
    · cases hAccess'.2
    next hPassed =>
    rw [if_neg hPassed] at hFrom
    refine hPassed ?_
    simp [← hFrom.sessionID, hSess, hAccess'.1, hAccess'.2, h.credentialsUnarchived c hc]
  · intro d hd hSess hFresh
    obtain ⟨c, hc, hFrom⟩ := hRetires.credentials d hd
    have hSame := h.refresh c hc current hMem (by rw [← hFrom.sessionID, hSess, hOwner])
      (hFrom.liveRefresh hFresh) hLive
    exact hUsed d hd (hFrom.id.trans (congrArg _ hSame)) hFresh.2.1

theorem Replacement.sound {current newAccess newRefresh : SessionCredential}
    {now : Instant} (h : Sound server db)
    (hRepl : Replacement db db' session current newAccess newRefresh now)
    (hMem : current ∈ db.credentials.rows) (hLive : LiveRefresh current)
    (hUnreplaced : current.replacedByID = []) (hOwner : current.sessionID = session.id)
    (hSess : session ∈ db.sessions.rows) (hAccess : Successor session .access newAccess)
    (hFresh : Successor session .refresh newRefresh) : Sound server db' ∧ ∀ c' ∈ db'.credentials.rows,
      (∃ c ∈ db.credentials.rows, CredentialFrom c' c ∧ (c.id = current.id → c'.usedAt ≠ none)) ∨
      c'.sessionID = session.id ∧ ∀ c ∈ db.credentials.rows, c.tokenHash ≠ c'.tokenHash := by
  obtain ⟨withAccess, withRefresh, hFirst, hSecond, rfl⟩ := hRepl.chain
  have hCleared := cleared_of_sound now newRefresh.id h hMem hLive hUnreplaced hOwner
  have hKept := mem_revokeAccess session now hMem hLive.1
  -- the marks commute with the insertions, which are of other rows
  have hRowsFirst := markUsed_inserts now newRefresh.id hFirst
    (fun hSame => hFirst.id current hKept hSame.symm)
  have hRowsSecond := markUsed_inserts now newRefresh.id hSecond
    (fun hSame => hSecond.id current (by rw [hFirst.rows]; exact mem_append_left _ hKept) hSame.symm)
  have hHashFirst : ∀ c ∈ db.credentials.rows, c.tokenHash ≠ newAccess.tokenHash := by
    intro c hc
    have hIn := hFirst.hash _ (mem_map_of_mem hc)
    split at hIn <;> exact hIn
  have hHashSecond : ∀ c ∈ db.credentials.rows, c.tokenHash ≠ newRefresh.tokenHash := by
    intro c hc
    have hIn := hSecond.hash _ (by rw [hFirst.rows]; exact mem_append_left _ (mem_map_of_mem hc))
    split at hIn <;> exact hIn
  have hHashAccess : newAccess.tokenHash ≠ newRefresh.tokenHash :=
    hSecond.hash newAccess (by rw [hFirst.rows]; exact mem_append_right _ mem_cons_self)
  have hSoundFirst : Sound server (withAccess.markUsed current.id now newRefresh.id) := by
    refine hCleared.sound.append ⟨?_, ⟨session, hSess, hAccess.owner.symm, hAccess.lifetime⟩,
      hAccess.unarchived, ?_, ?_⟩ hRowsFirst hFirst.sessions
    · exact hCleared.retires.hash_ne hHashFirst
    · intro d hd hSame hLive'
      exact absurd hLive' (hCleared.noAccess d hd (hSame.trans hAccess.owner))
    · intro d hd hSame hLive'
      exact absurd hLive' (hCleared.noRefresh d hd (hSame.trans hAccess.owner))
  have hSoundSecond : Sound server (withRefresh.markUsed current.id now newRefresh.id) := by
    refine hSoundFirst.append ⟨?_,
      ⟨session, by rw [show (withAccess.markUsed current.id now newRefresh.id).sessions = _ from
        hFirst.sessions]; exact hSess, hFresh.owner.symm, hFresh.lifetime⟩,
      hFresh.unarchived, ?_, ?_⟩ hRowsSecond hSecond.sessions
    · rw [hRowsFirst]
      exact forall_mem_append.mpr ⟨hCleared.retires.hash_ne hHashSecond, forall_mem_singleton.mpr hHashAccess⟩
    · intro d _ _ _ hLive'
      have hKinds := hLive'.1
      rw [hFresh.kind] at hKinds
      cases hKinds
    · intro d hd hSame hLive'
      rw [hRowsFirst] at hd
      rcases mem_append.mp hd with hOld | hNew
      · exact absurd hLive' (hCleared.noRefresh d hOld (hSame.trans hFresh.owner))
      have hKinds := hLive'.1
      rw [mem_singleton.mp hNew, hAccess.kind] at hKinds
      cases hKinds
  refine ⟨hSoundSecond, ?_⟩
  rw [hRowsSecond, hRowsFirst, forall_mem_append, forall_mem_append, forall_mem_singleton, forall_mem_singleton]
  refine ⟨⟨fun c' hc' => ?_, .inr ⟨hAccess.owner, hHashFirst⟩⟩, .inr ⟨hFresh.owner, hHashSecond⟩⟩
  obtain ⟨c, hc, hFrom⟩ := hCleared.retires.credentials c' hc'
  exact .inl ⟨c, hc, hFrom, fun hID => hCleared.used c' hc' (hFrom.id.trans hID)⟩

/-- A rotation leaves the tables sound, adds two credentials of the Session, and leaves the presented
token used. -/
theorem rotated_sound {input : SessionRefreshRotation} {current : SessionCredential}
    (h : Sound server db) (hLocks : Locks server db input.tokenHash current session)
    (hReplaces : Replaces input db db' current session) : Sound server db' ∧ Extends db db' ∧
      ∀ c' ∈ db'.credentials.rows, c'.tokenHash = input.tokenHash → c'.usedAt ≠ none := by
  obtain ⟨hMem, hHash, hKind, -⟩ := presented_eq_some hLocks.presented
  obtain ⟨hSess, hOwner⟩ := Table.find_eq_some_iff.mp hLocks.owner
  obtain ⟨replaced, hReplaced, rfl⟩ := hReplaces.replaced
  have hRepl := replaceRefreshCredential_ok hReplaced
  obtain ⟨hSound, hRows⟩ := hRepl.sound h hMem ⟨hKind, hReplaces.unused, hReplaces.unrevoked⟩
    hReplaces.unreplaced hOwner.symm hSess
    ⟨rfl, rfl, rfl, le_trans (timeUTC_le _) (min_le_right _ _)⟩
    ⟨rfl, rfl, rfl, le_trans (timeUTC_le _) (min_le_right _ _)⟩
  have hStill : session ∈ replaced.sessions.rows := by rw [hRepl.sessions]; exact hSess
  have hTouch := touchRotatedSession_retires (timeUTC input.idleExpiresAt) (timeUTC input.now) hStill
  refine ⟨hSound.retires hTouch, ⟨fun s' hs' => ?_, fun c' hc' => ?_⟩, fun c' hc' hSame => ?_⟩
  · obtain ⟨s, hs, hFrom⟩ := hTouch.sessions s' hs'
    exact .inl ⟨s, hRepl.sessions ▸ hs, hFrom⟩
  · rcases hRows c' hc' with ⟨c, hc, hFrom, -⟩ | ⟨hNew, hHashes⟩
    · exact .inl ⟨c, hc, hFrom⟩
    · refine .inr ⟨hHashes, fun s hs hID => ?_⟩
      rw [session_eq_of_id hs hSess (hID.trans hNew), hReplaces.sessionUnrevoked]
  · rcases hRows c' hc' with ⟨c, hc, hFrom, hUsed⟩ | ⟨-, hHashes⟩
    · refine hUsed ?_
      rw [h.hashes c hc current hMem (by rw [← hFrom.tokenHash, hSame, hHash])]
    · exact absurd (hHash.trans hSame.symm) (hHashes current hMem)

end

end Proctor.Sessions
