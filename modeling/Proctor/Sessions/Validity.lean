import Proctor.Sessions.Steps

/-! # Which writes keep the rows readable

Every read of a row validates it, so a row that a write left invalid can neither be read nor
revoked. Two writes take the instant of an activity as it comes; all others keep valid rows valid. -/
namespace Proctor.Sessions

open Json Keyed Fallible List Option Table

structure AllValid (f : Formats) (db : Database) : Prop where
  sessions : ∀ s ∈ db.sessions.rows, s.validate f = none
  credentials : ∀ c ∈ db.credentials.rows, c.validate = none

variable {f : Formats}

theorem or_eq_none {a b : Option String} : a.or b = none ↔ a = none ∧ b = none := by
  cases a <;> simp

/-! ## Sessions -/

/-- What the validator asks of the fields that no operation writes after the creation. -/
def Session.Fixed (f : Formats) (s : Session) : Prop :=
  isValidOpaqueID s.id = true ∧ s.createdAt ≠ 0 ∧
  (¬s.authenticationGeneration < 0 ∧ (s.mfaRecoveryRequired = true →
    s.authenticationGeneration ≠ 0 ∧ s.clientType = .web)) ∧
  isValidOpaqueID s.userID = true ∧ s.clientType ≠ .unknown ∧
  s.desktopRefused f = false ∧
  ¬128 < size s.deviceID ∧ ¬128 < s.deviceName.length ∧
  ((s.authenticationMethod.isEmpty = false ∧ ¬64 < size s.authenticationMethod) ∧
    isValidName s.authenticationMethod = true) ∧
  (s.authenticationProviderID.isEmpty = true →
    s.authenticationMethod = ['p', 'a', 's', 's', 'w', 'o', 'r', 'd']) ∧
  (s.authenticationProviderID.isEmpty = false →
    isValidIdentityProviderID s.authenticationProviderID = true) ∧
  (s.authenticationProviderID.isEmpty = true → s.externalIdentityID.isEmpty = true) ∧
  (s.authenticationProviderID.isEmpty = false → isValidOpaqueID s.externalIdentityID = true) ∧
  (s.authenticatedAt ≠ 0 ∧ ¬s.createdAt < s.authenticatedAt) ∧ ¬s.expiresAt ≤ s.createdAt ∧
  ∀ t ∈ s.archivedAt, ¬t < s.createdAt

/-- What the validator asks of the fields that operations write. -/
structure Session.Ordered (s : Session) : Prop where
  updated : s.createdAt ≤ s.updatedAt
  reauthenticated : ∀ t ∈ s.reauthenticatedAt, s.authenticatedAt ≤ t ∧ t ≤ s.updatedAt
  known : s.authenticationStrength ≠ .unknown
  multiFactor : s.authenticationStrength = .multiFactor →
    ∃ t, s.mfaCompletedAt = some t ∧ s.authenticatedAt ≤ t ∧ t ≤ s.updatedAt
  singleFactor : s.authenticationStrength = .singleFactor → s.mfaCompletedAt = none
  active : s.createdAt ≤ s.lastActivityAt
  idle : s.lastActivityAt < s.idleExpiresAt
  lifetime : s.idleExpiresAt ≤ s.expiresAt
  revoked : ∀ t ∈ s.revokedAt, s.createdAt ≤ t
  unrevoked : s.revokedAt = none → s.revocationReason = none
  reason : s.revokedAt ≠ none → ∃ reason, s.revocationReason = some reason ∧ reason.isValid = true

theorem any_eq_false {α : Type} {o : Option α} {p : α → Bool} :
    o.any p = false ↔ ∀ t ∈ o, p t = false := by
  cases o <;> simp

variable {s : Session}

theorem Session.validate_eq_none_iff : s.validate f = none ↔ s.Fixed f ∧ s.Ordered := by
  simp only [validate, validateIdentity, validateAuthentication, validateLifecycle, or_eq_none,
    refuse_eq_none, any_eq_false, Bool.or_eq_false_iff, Bool.and_eq_false_imp, Bool.not_eq_eq_eq_not,
    Bool.not_false, Bool.not_true, decide_eq_false_iff_not, beq_eq_false_iff_ne, beq_iff_eq,
    bne_eq_false_iff_eq]
  constructor
  · rintro ⟨⟨h1, h2, h3, h4, h5, h6, h7, h8, h9, -⟩, ⟨h10, h11, h12, h13, h14, h15, h16, h17, h18, h19, -⟩,
      h20, h21, h22, h23, h24, h25, h26, -⟩
    refine ⟨⟨h1, h2.1, h4, h5, h6, h7, h8, h9, h10, h11, h12, h13, h14, h16, h21, h23⟩, ?_⟩
    exact {
      updated := not_lt.mp h3
      reauthenticated := fun t ht => ⟨not_lt.mp (h17 t ht).1, not_lt.mp (h17 t ht).2⟩
      known := h15
      multiFactor := fun hMulti => by
        obtain ⟨hSome, hTimes⟩ := h18 hMulti
        obtain ⟨t, ht⟩ := isSome_iff_exists.mp (isNone_eq_false_iff.mp hSome)
        exact ⟨t, ht, not_lt.mp (hTimes t ht).1, not_lt.mp (hTimes t ht).2⟩
      singleFactor := fun hSingle => by simpa using h19 hSingle
      active := not_lt.mp h20
      idle := not_le.mp h22.1
      lifetime := not_lt.mp h22.2
      revoked := fun t ht => not_lt.mp (h24 t ht)
      unrevoked := fun hNone => by simpa using h25 (by rw [hNone]; rfl)
      reason := fun hSome => by
        have hAny := h26 (isSome_iff_ne_none.mpr hSome)
        simpa [Option.any_eq_true] using hAny }
  · rintro ⟨⟨h1, h2, h4, h5, h6, h7, h8, h9, h10, h11, h12, h13, h14, h16, h21, h23⟩, hOrd⟩
    have hSet : s.updatedAt ≠ 0 := fun hZero => h2 (Nat.le_zero.mp (hZero ▸ hOrd.updated))
    refine ⟨⟨h1, ⟨h2, hSet⟩, not_lt.mpr hOrd.updated, h4, h5, h6, h7, h8, h9, trivial⟩,
      ⟨h10, h11, h12, h13, h14, hOrd.known, h16, ?_, ?_, ?_, trivial⟩,
      not_lt.mpr hOrd.active, h21, ⟨not_le.mpr hOrd.idle, not_lt.mpr hOrd.lifetime⟩, h23,
      fun t ht => not_lt.mpr (hOrd.revoked t ht), ?_, ?_, trivial⟩
    · intro t ht
      obtain ⟨hFrom, hUpTo⟩ := hOrd.reauthenticated t ht
      exact ⟨not_lt.mpr hFrom, not_lt.mpr hUpTo⟩
    · intro hMulti
      obtain ⟨t, ht, hFrom, hUpTo⟩ := hOrd.multiFactor hMulti
      rw [ht]
      exact ⟨rfl, fun u hu => mem_some.mp hu ▸ ⟨not_lt.mpr hFrom, not_lt.mpr hUpTo⟩⟩
    · intro hSingle
      rw [hOrd.singleFactor hSingle]
      rfl
    · intro hNone
      rw [hOrd.unrevoked (isNone_iff_eq_none.mp hNone)]
      rfl
    · intro hSome
      obtain ⟨reason, hReason, hValid⟩ := hOrd.reason (isSome_iff_ne_none.mp hSome)
      rw [hReason]
      exact hValid

theorem Session.Ordered.later (h : s.Ordered) {updated : Instant} (hLater : s.updatedAt ≤ updated) :
    { s with updatedAt := updated }.Ordered :=
  { h with
    updated := le_trans h.updated hLater
    reauthenticated := fun t ht => (h.reauthenticated t ht).imp_right (le_trans · hLater)
    multiFactor := fun hMulti => by
      obtain ⟨t, ht, hFrom, hUpTo⟩ := h.multiFactor hMulti
      exact ⟨t, ht, hFrom, le_trans hUpTo hLater⟩ }

variable {at_ : Instant}

theorem Session.validate_revoked {reason : SessionRevocationReason}
    (h : s.validate f = none) (hReason : reason.isValid) :
    (revokedSession at_ reason s).validate f = none := by
  obtain ⟨hFixed, hOrd⟩ := validate_eq_none_iff.mp h
  exact validate_eq_none_iff.mpr ⟨hFixed, { hOrd.later (le_max_left _ at_) with
    revoked := fun t ht => mem_some.mp ht ▸ le_max_left _ _
    unrevoked := nofun
    reason := fun _ => ⟨reason, rfl, hReason⟩ }⟩

theorem Session.validate_upgraded (h : s.validate f = none) :
    (upgradedSession at_ s).validate f = none := by
  obtain ⟨hFixed, hOrd⟩ := validate_eq_none_iff.mp h
  have hAuthenticated : s.authenticatedAt ≤ s.createdAt :=
    not_lt.mp hFixed.2.2.2.2.2.2.2.2.2.2.2.2.2.1.2
  exact validate_eq_none_iff.mpr ⟨hFixed, { hOrd.later (le_max_left _ at_) with
    known := nofun
    multiFactor := fun _ => ⟨_, rfl, le_max_left _ _,
      max_le_max (le_trans hAuthenticated hOrd.updated) (le_refl at_)⟩
    singleFactor := nofun }⟩

theorem Session.validate_active {updated at_ : Instant} (idle : Instant) (h : s.validate f = none)
    (hUpd : s.updatedAt ≤ updated) (hNow : at_ < s.expiresAt) :
    { s with updatedAt := updated, lastActivityAt := at_,
             idleExpiresAt := min idle s.expiresAt : Session }.validate f = none ↔
      s.createdAt ≤ at_ ∧ at_ < idle := by
  obtain ⟨hFixed, hOrd⟩ := validate_eq_none_iff.mp h
  constructor
  · intro hValid
    obtain ⟨-, hNew⟩ := validate_eq_none_iff.mp hValid
    exact ⟨hNew.active, (lt_min_iff.mp hNew.idle).1⟩
  rintro ⟨hCreated, hIdle⟩
  exact validate_eq_none_iff.mpr ⟨hFixed, { hOrd.later hUpd with
    active := hCreated
    idle := lt_min hIdle hNow
    lifetime := min_le_right _ _ }⟩

/-! ## Credentials -/

variable {c : SessionCredential}

theorem SessionCredential.validate_eq_none_iff : c.validate = none ↔
      (isValidOpaqueID c.id ∧ c.createdAt ≠ 0 ∧ isValidOpaqueID c.sessionID ∧
        c.kind ≠ .unknown ∧ isValidTokenHash c.tokenHash ∧ c.createdAt < c.expiresAt ∧
        ∀ t ∈ c.archivedAt, c.createdAt ≤ t) ∧ c.createdAt ≤ c.updatedAt ∧ c.validateRotation = none ∧
      (∀ t ∈ c.usedAt, c.createdAt ≤ t ∧ t < c.expiresAt) ∧ ∀ t ∈ c.revokedAt, c.createdAt ≤ t := by
  simp only [validate, or_eq_none, refuse_eq_none, any_eq_false, Bool.or_eq_false_iff,
    Bool.not_eq_eq_eq_not, Bool.not_false, decide_eq_false_iff_not, beq_eq_false_iff_ne, not_lt, not_le]
  constructor
  · rintro ⟨h1, h2, h3, h4, h5, h6, h7, h8, h9, h10, h11, -⟩
    exact ⟨⟨h1, h2.1, h4, h5, h6, h7, h10⟩, h3, h8, h9, h11⟩
  rintro ⟨⟨h1, h2, h4, h5, h6, h7, h10⟩, h3, h8, h9, h11⟩
  have hSet : c.updatedAt ≠ 0 := fun hZero => h2 (Nat.le_zero.mp (hZero ▸ h3))
  exact ⟨h1, ⟨h2, hSet⟩, h3, h4, h5, h6, h7, h8, h9, h10, h11, trivial⟩

theorem SessionCredential.validate_revoked
    (h : c.validate = none) : (revokedCredential at_ c).validate = none := by
  obtain ⟨hFixed, hUpd, hRotation, hUsed, -⟩ := validate_eq_none_iff.mp h
  refine validate_eq_none_iff.mpr ⟨hFixed, le_trans hUpd (le_max_left _ _), hRotation, hUsed, ?_⟩
  intro t ht
  exact mem_some.mp ht ▸ le_max_left _ _

theorem isValidOpaqueID_ne_nil {id : Text} (h : isValidOpaqueID id) : id ≠ [] := by
  rintro rfl
  cases h

theorem SessionCredential.validateRefreshRotation_eq_none : c.validateRefreshRotation = none ↔
      isValidOpaqueID c.familyID ∧ (c.parentID ≠ [] → isValidOpaqueID c.parentID = true) ∧
      c.parentID ≠ c.id ∧ (c.replacedByID ≠ [] → isValidOpaqueID c.replacedByID = true) ∧
      c.replacedByID ≠ c.id ∧ (c.replacedByID ≠ [] → c.usedAt ≠ none) := by
  simp [validateRefreshRotation, refuse_eq_none, isSome_iff_ne_none]

theorem SessionCredential.validate_used {now : Instant} {replacement : Text}
    (h : c.validate = none) (hKind : c.kind = .refresh) (hNow : now < c.expiresAt)
    (hID : isValidOpaqueID replacement) (hOther : replacement ≠ c.id) :
    (usedCredential now replacement c).validate = none := by
  obtain ⟨hFixed, hUpd, hRotation, -, hRevk⟩ := validate_eq_none_iff.mp h
  refine validate_eq_none_iff.mpr ⟨hFixed, le_trans hUpd (le_max_left _ _), ?_, ?_, hRevk⟩
  · rw [validateRotation, hKind] at hRotation
    obtain ⟨hFamily, hPar, hParentID, -⟩ := validateRefreshRotation_eq_none.mp hRotation
    rw [validateRotation, show (usedCredential now replacement c).kind = .refresh from hKind]
    exact validateRefreshRotation_eq_none.mpr
      ⟨hFamily, hPar, hParentID, fun _ => hID, hOther, fun _ => nofun⟩
  · intro t ht
    obtain rfl := mem_some.mp ht
    exact ⟨le_max_left _ _, max_lt hFixed.2.2.2.2.2.1 hNow⟩

theorem unlinked_elim {P : Text → Prop} (deleted : List Text) {link : Text} (hNone : P [])
    (hLink : P link) : P (unlinked deleted link) := by
  unfold unlinked
  split
  · exact hNone
  · exact hLink

theorem SessionCredential.validate_detached {deleted : List Text} {now : Instant}
    (h : c.validate = none) : (detached deleted now c).validate = none := by
  obtain ⟨hFixed, hUpd, hRotation, hUsed, hRevk⟩ := validate_eq_none_iff.mp h
  have hID : [] ≠ c.id := fun hNil => isValidOpaqueID_ne_nil hFixed.1 hNil.symm
  unfold detached
  split
  · refine validate_eq_none_iff.mpr ⟨hFixed, le_trans hUpd (le_max_left _ _), ?_, hUsed, hRevk⟩
    unfold validateRotation at hRotation ⊢
    split at hRotation
    · next hAccess =>
      simp only [refuse_eq_none, Bool.or_eq_false_iff, Bool.not_eq_eq_eq_not, Bool.not_false,
        List.isEmpty_iff] at hRotation
      obtain ⟨⟨⟨⟨hFamily, hPar⟩, hReplaced⟩, hUnused⟩, -⟩ := hRotation
      have hPar' : unlinked deleted c.parentID = [] := unlinked_elim (P := (· = [])) deleted rfl hPar
      have hReplaced' : unlinked deleted c.replacedByID = [] := unlinked_elim (P := (· = [])) deleted rfl hReplaced
      rw [if_pos hAccess, hFamily, hPar', hReplaced', hUnused]
      rfl
    · next hFresh =>
      rw [if_neg hFresh]
      obtain ⟨hFamily, hPar, hParentID, hReplaced, hReplacedID, hWhenUsed⟩ :=
        validateRefreshRotation_eq_none.mp hRotation
      -- an unlinked parent or successor asks for nothing; one that stays was checked before
      have hParents := unlinked_elim (P := fun p => (p ≠ [] → isValidOpaqueID p = true) ∧ p ≠ c.id)
        deleted ⟨fun hNot => absurd rfl hNot, hID⟩ ⟨hPar, hParentID⟩
      have hSuccessors := unlinked_elim
        (P := fun r => (r ≠ [] → isValidOpaqueID r = true) ∧ r ≠ c.id ∧ (r ≠ [] → c.usedAt ≠ none))
        deleted ⟨fun hNot => absurd rfl hNot, hID, fun hNot => absurd rfl hNot⟩
        ⟨hReplaced, hReplacedID, hWhenUsed⟩
      exact validateRefreshRotation_eq_none.mpr
        ⟨hFamily, hParents.1, hParents.2, hSuccessors.1, hSuccessors.2.1, hSuccessors.2.2⟩
  · exact h

/-! ## Operations -/

section
variable {server : Server} {db db' : Database}

theorem AllValid.revokeCredentials (h : AllValid f db) (selects : SessionCredential → Bool)
    (at_ : Instant) : AllValid f (db.revokeCredentials selects at_) := by
  refine ⟨h.sessions, fun c' hc' => ?_⟩
  obtain ⟨c, hc, rfl⟩ := mem_map.mp hc'
  split
  · exact SessionCredential.validate_revoked (h.credentials c hc)
  · exact h.credentials c hc

variable {reason : SessionRevocationReason} {now : Instant} {session : Session}

theorem AllValid.revokeSessions (h : AllValid f db) (selects : Session → Bool) (at_ : Instant)
    (hReason : reason.isValid) : AllValid f (db.revokeSessions selects at_ reason) := by
  refine ⟨fun s' hs' => ?_, h.credentials⟩
  obtain ⟨s, hs, rfl⟩ := mem_map.mp hs'
  split
  · exact Session.validate_revoked (h.sessions s hs) hReason
  · exact h.sessions s hs

theorem AllValid.revokes (h : AllValid f db) (hRevokes : Revokes db db') : AllValid f db' := by
  obtain ⟨selects, picks, at_, reason, hReason, rfl⟩ := hRevokes
  exact (h.revokeSessions selects at_ hReason).revokeCredentials picks at_

theorem AllValid.inserts {c : SessionCredential} (h : AllValid f db) (hIns : Inserts db db' c)
    (hValid : c.validate = none) : AllValid f db' := by
  refine ⟨by rw [hIns.sessions]; exact h.sessions, ?_⟩
  rw [hIns.rows]
  exact forall_mem_append.mpr ⟨h.credentials, forall_mem_singleton.mpr hValid⟩

theorem AllValid.saves {cs : List SessionCredential} (h : AllValid server.formats db)
    (hSaves : Saves server db db' s cs) : AllValid server.formats db' := by
  obtain ⟨base, hBase, hSame, hIns⟩ := hSaves.inserts
  have hStart : AllValid server.formats base := by
    refine ⟨?_, by rw [hSame]; exact h.credentials⟩
    rw [hBase, hSaves.sessions]
    exact forall_mem_append.mpr ⟨h.sessions, forall_mem_singleton.mpr hSaves.valid⟩
  have hAll : ∀ c ∈ cs, c.validate = none := fun c hc => (hSaves.initial c hc).valid
  clear hBase hSame hSaves
  induction cs generalizing base with
  | nil => exact pure_ok hIns ▸ hStart
  | cons c rest ih =>
    obtain ⟨next, hNext, hRest⟩ := bind_ok hIns
    refine ih next hRest (hStart.inserts (insertSessionCredential_ok hNext) (hAll c mem_cons_self))
      fun d hd => hAll d (mem_cons_of_mem _ hd)

section

variable (h : AllValid f db)
include h

theorem AllValid.purgeSessions {input : SessionPurge}
    (hPurge : purgeRetiredSessions db input = .ok db') : AllValid f db' := by
  rw [purgeRetiredSessions_ok hPurge]
  exact ⟨fun s hs => h.sessions s (mem_of_mem_filter hs),
    fun c hc => h.credentials c (mem_of_mem_filter hc)⟩

theorem AllValid.purgeCredentials {input : SessionCredentialPurge}
    (hPurge : purgeRetiredCredentials db input = .ok db') : AllValid f db' := by
  obtain ⟨hSess, hRows⟩ := purgeRetiredCredentials_ok hPurge
  refine ⟨by rw [hSess]; exact h.sessions, fun c' hc' => ?_⟩
  obtain ⟨c, hc, rfl⟩ := hRows c' hc'
  exact SessionCredential.validate_detached (h.credentials c hc)

theorem AllValid.set_iff (s' : Session) (hs : db.sessions.find s'.id = some s) :
    AllValid f { db with sessions := db.sessions.set s' } ↔ s'.validate f = none := by
  constructor
  · intro hAll
    exact hAll.sessions s' (find_eq_some_iff.mp (find_set_self hs)).1
  intro hValid
  refine ⟨fun x hx => ?_, h.credentials⟩
  obtain ⟨y, hy, rfl⟩ := mem_map.mp hx
  split
  · exact hValid
  · exact h.sessions y hy

theorem updateActivity_valid_iff {input : SessionActivityUpdate}
    (hUpd : updateActivity db input = .ok db') :
    AllValid f db' ↔ ∀ s, db.sessions.find input.id = some s →
      s.createdAt ≤ timeUTC input.lastActivityAt ∧
        timeUTC input.lastActivityAt < timeUTC input.idleExpiresAt := by
  obtain ⟨s, hs, hLive, rfl⟩ := updateActivity_ok hUpd
  obtain ⟨hMem, hID⟩ := find_eq_some_iff.mp hs
  have hActive := Session.validate_active (timeUTC input.idleExpiresAt) (h.sessions s hMem)
    (le_max_left s.updatedAt (timeUTC input.lastActivityAt)) hLive
  rw [h.set_iff (activeSession (timeUTC input.lastActivityAt) (timeUTC input.idleExpiresAt) s)
    (show db.sessions.find s.id = some s from hID ▸ hs)]
  refine Iff.trans hActive ⟨fun hTimes x hx => ?_, fun hAll => hAll s hs⟩
  rw [hs] at hx
  exact Option.some.inj hx ▸ hTimes

theorem markUsed_valid {id replacement : Text} (hUsed : ∀ c ∈ db.credentials.rows, c.id = id →
      (usedCredential now replacement c).validate = none) :
    AllValid f (db.markUsed id now replacement) := by
  refine ⟨h.sessions, fun c' hc' => ?_⟩
  obtain ⟨c, hc, rfl⟩ := mem_map.mp hc'
  split
  · next hPicked =>
    simp only [Bool.and_eq_true, beq_iff_eq] at hPicked
    exact hUsed c hc hPicked.1.1
  · exact h.credentials c hc

theorem replaceRefreshCredential_valid {current newAccess newRefresh : SessionCredential}
    (hReplace : Replacement db db' session current newAccess newRefresh now)
    (hMem : current ∈ db.credentials.rows) (hKind : current.kind = .refresh)
    (hNow : now < current.expiresAt) (hAccess : newAccess.validate = none)
    (hFresh : newRefresh.validate = none) : AllValid f db' := by
  obtain ⟨withAccess, withRefresh, hFirst, hSecond, rfl⟩ := hReplace.chain
  have hRevk := h.revokeCredentials (fun c => c.sessionID == session.id && c.kind == .access) now
  have hKept := mem_revokeAccess session now hMem hKind
  have hStill : current ∈ withRefresh.credentials.rows := by
    rw [hSecond.rows, hFirst.rows]
    exact mem_append_left _ (mem_append_left _ hKept)
  have hOther : newRefresh.id ≠ current.id := by
    refine fun hSame => hSecond.id current ?_ hSame.symm
    rw [hFirst.rows]
    exact mem_append_left _ hKept
  refine markUsed_valid ((hRevk.inserts hFirst hAccess).inserts hSecond hFresh) fun c hc hID => ?_
  obtain rfl := eq_of_id hc hStill hID
  obtain ⟨hFixed, -⟩ := SessionCredential.validate_eq_none_iff.mp hFresh
  exact SessionCredential.validate_used (h.credentials c hMem) hKind hNow hFixed.1 hOther

theorem touchRotatedSession_valid_iff {idle : Instant}
    (hMem : session ∈ db.sessions.rows) (hLive : session.revokedAt = none)
    (hNow : now < session.expiresAt) :
    AllValid f (touchRotatedSession db session idle now) ↔ session.createdAt ≤ now ∧ now < idle := by
  have hActive := Session.validate_active idle (h.sessions session hMem)
    (le_max_left session.updatedAt now) hNow
  refine Iff.trans ⟨fun hAll => ?_, fun hValid => ⟨fun s' hs' => ?_, h.credentials⟩⟩ hActive
  · refine hAll.sessions _ (mem_map.mpr ⟨session, hMem, ?_⟩)
    rw [if_pos (by simp [hLive])]
  obtain ⟨s, hs, rfl⟩ := mem_map.mp hs'
  split
  · next hPicked =>
    simp only [Bool.and_eq_true, beq_iff_eq] at hPicked
    obtain rfl := inj_on_of_nodup_map db.sessions.distinct hs hMem hPicked.1
    exact hValid
  · exact h.sessions s hs

end

/-- The instant of an activity that goes through lies in the lifetime of the row that is written: it does not precede
the Session's creation, and the new idle deadline lies after it. -/
def Timely (server : Server) (db : Database) : Operation → Prop
  | .updateActivity input => ∀ db', updateActivity db input = .ok db' →
      ∀ s, db.sessions.find input.id = some s → s.createdAt ≤ timeUTC input.lastActivityAt ∧
        timeUTC input.lastActivityAt < timeUTC input.idleExpiresAt
  | .rotateRefresh input => ∀ db', rotateRefresh server db input = .ok (db', .rotated) →
      ∀ c s, db.presented input.tokenHash = some c → db.sessions.find c.sessionID = some s →
        s.createdAt ≤ timeUTC input.now ∧ timeUTC input.now < timeUTC input.idleExpiresAt
  | _ => True

theorem timeUTC_timeUTC (t : Instant) : timeUTC (timeUTC t) = timeUTC t := by
  unfold timeUTC
  rw [Nat.mul_div_cancel _ (by decide)]

theorem rotateRefresh_valid_iff {input : SessionRefreshRotation} {r : Rotation}
    (h : AllValid server.formats db) (hRotate : rotateRefresh server db input = .ok (db', r)) :
    AllValid server.formats db' ↔ Timely server db (.rotateRefresh input) := by
  obtain ⟨current, session, hLocks, hWay⟩ := rotateRefresh_ok hRotate
  obtain ⟨hMem, -, hKind, -⟩ := presented_eq_some hLocks.presented
  obtain ⟨hSess, -⟩ := find_eq_some_iff.mp hLocks.owner
  cases hWay with
  | replay hUsed =>
    refine iff_of_true ?_ fun other hOther => ?_
    · exact (h.revokeCredentials _ _).revokeSessions _ _ rfl
    · rw [hRotate] at hOther
      cases hOther
  | expired hRevokes =>
    refine iff_of_true (h.revokes hRevokes) fun other hOther => ?_
    rw [hRotate] at hOther
    cases hOther
  | rotated hReplaces =>
    obtain ⟨replaced, hReplaced, rfl⟩ := hReplaces.replaced
    have hRepl := replaceRefreshCredential_ok hReplaced
    have hNow : timeUTC input.now < current.expiresAt := timeUTC_timeUTC input.now ▸ hReplaces.expiry
    have hValid := replaceRefreshCredential_valid h hRepl hMem hKind hNow hReplaces.accessValid
      hReplaces.refreshValid
    rw [touchRotatedSession_valid_iff hValid (by rw [hRepl.sessions]; exact hSess)
      hReplaces.sessionUnrevoked hReplaces.lifetime]
    constructor
    · intro hTimes other _ c s hc hs
      rw [hLocks.presented] at hc
      cases hc
      rw [hLocks.owner] at hs
      exact Option.some.inj hs ▸ hTimes
    · intro hTimely
      exact hTimely _ hRotate current session hLocks.presented hLocks.owner

theorem perform_valid_iff {op : Operation} (h : AllValid server.formats db)
    (hPerf : op.perform server db = .ok db') : AllValid server.formats db' ↔ Timely server db op := by
  cases op with
  | save input =>
    obtain ⟨s, cs, hSaves⟩ := save_ok hPerf
    exact iff_of_true (h.saves hSaves) trivial
  | rotateRefresh input =>
    simp only [Operation.perform] at hPerf
    cases hRotate : rotateRefresh server db input with
    | error fault => rw [hRotate] at hPerf; cases hPerf
    | ok done =>
      rw [hRotate] at hPerf
      cases hPerf
      exact rotateRefresh_valid_iff h hRotate
  | withdraw input => exact iff_of_true (h.revokes (withdraw_ok hPerf)) trivial
  | revoke input =>
    rcases revoke_ok hPerf with rfl | hRevokes
    · exact iff_of_true h trivial
    · exact iff_of_true (h.revokes hRevokes) trivial
  | revokeAllForUser input => exact iff_of_true (h.revokes (revokeAllForUser_ok hPerf)) trivial
  | enforceExpiry input =>
    rcases enforceExpiry_ok hPerf with rfl | hRevokes
    · exact iff_of_true h trivial
    · exact iff_of_true (h.revokes hRevokes) trivial
  | updateActivity input =>
    rw [updateActivity_valid_iff h hPerf]
    exact ⟨fun hTimes _ _ => hTimes, fun hTimely => hTimely _ hPerf⟩
  | upgrade input =>
    obtain ⟨s, hs, hValid, rfl⟩ := upgradeSessionAuthentication_ok hPerf
    obtain ⟨-, hID⟩ := find_eq_some_iff.mp hs
    refine iff_of_true ((h.set_iff (s := s) _ ?_).mpr hValid) trivial
    exact show db.sessions.find s.id = some s from hID ▸ hs
  | purgeSessions input => exact iff_of_true (h.purgeSessions hPerf) trivial
  | purgeCredentials input => exact iff_of_true (h.purgeCredentials hPerf) trivial

/-! ## Runs -/

inductive Reached (server : Server) (allowed : Database → Operation → Prop) : Database → Prop
  | start : Reached server allowed .empty
  | next {db : Database} (op : Operation) : Reached server allowed db → allowed db op →
      Reached server allowed (step server db op)

theorem Reached.allValid (h : Reached server (Timely server) db) : AllValid server.formats db := by
  induction h with
  | start => exact ⟨fun _ hs => absurd hs not_mem_nil, fun _ hc => absurd hc not_mem_nil⟩
  | next op _ hTimely ih =>
    unfold step
    split
    · next db' hPerf => exact (perform_valid_iff ih hPerf).mpr hTimely
    · exact ih

structure Readable (server : Server) (db : Database) : Prop where
  revoke : ∀ input entity field,
    Sessions.revoke server db input ≠ .error (.invalidPersistedState entity field)
  revokeAllForUser : ∀ input entity field,
    Sessions.revokeAllForUser server db input ≠ .error (.invalidPersistedState entity field)
  enforceExpiry : ∀ input entity field,
    Sessions.enforceExpiry server db input ≠ .error (.invalidPersistedState entity field)
  upgrade : ∀ input entity field,
    upgradeSessionAuthentication server db input ≠ .error (.invalidPersistedState entity field)

theorem readSession_of_valid (h : s.validate f = none) : readSession f s = .ok s := by
  rw [readSession, h]

theorem revokeOneUserSessionAt_avoids {id userID : Text} {at_ : Instant} (entity field : String) :
    Avoids (.invalidPersistedState entity field) (revokeOneUserSessionAt db id userID at_ reason) := by
  unfold revokeOneUserSessionAt
  split <;> simp

theorem mapM_readSession_avoids {ss : List Session} (h : ∀ s ∈ ss, s.validate f = none)
    (entity field : String) : Avoids (.invalidPersistedState entity field) (ss.mapM (readSession f)) := by
  induction ss with
  | nil => exact avoids_pure _
  | cons s rest ih =>
    obtain ⟨hFirst, hRest⟩ := forall_mem_cons.mp h
    simp [mapM_cons, readSession_of_valid hFirst, ih hRest]

theorem AllValid.readable (h : AllValid server.formats db) : Readable server db where
  revoke input entity field := by
    unfold Sessions.revoke
    split
    · simp
    split
    · simp
    split
    · simp
    split
    · split <;> simp
    next row hRow =>
    have hMem := (find_eq_some_iff.mp (filter_eq_some_iff.mp hRow).1).1
    rw [readSession_of_valid (h.sessions row hMem)]
    exact (revokeOneUserSessionAt_avoids entity field).bind fun _ _ => avoids_ok _
  revokeAllForUser input entity field := by
    unfold Sessions.revokeAllForUser
    split
    · simp
    split
    · simp
    split
    · simp
    exact (mapM_readSession_avoids (fun s hs => h.sessions s (mem_of_mem_filter hs)) entity field).bind
      fun _ _ => avoids_ok _
  enforceExpiry input entity field := by
    unfold Sessions.enforceExpiry
    split
    · simp
    split
    · simp
    next row hRow =>
    have hMem := (find_eq_some_iff.mp (filter_eq_some_iff.mp hRow).1).1
    rw [readSession_of_valid (h.sessions row hMem)]
    refine Avoids.bind (avoids_ok _) fun session _ => ?_
    split
    · exact avoids_ok _
    · exact revokeOneUserSessionAt_avoids entity field
  upgrade input entity field := by
    unfold upgradeSessionAuthentication
    split
    · simp
    split
    · simp
    next s hs =>
    split
    · simp
    rw [readSession_of_valid
      (Session.validate_upgraded (h.sessions s (find_eq_some_iff.mp hs).1))]
    exact avoids_ok _

end

/-- The rows stay valid exactly under timely activity, and valid rows are never in the way of a
revocation. -/
theorem sessions_stay_readable (server : Server) :
    (∀ (db db' : Database) (op : Operation), AllValid server.formats db →
      op.perform server db = .ok db' → (AllValid server.formats db' ↔ Timely server db op)) ∧
    ∀ db, Reached server (Timely server) db → AllValid server.formats db ∧ Readable server db := by
  constructor
  · intro db db' op h hPerf
    exact perform_valid_iff h hPerf
  · intro db hReach
    exact ⟨hReach.allValid, hReach.allValid.readable⟩

def plainServer : Server where
  formats := ⟨fun _ => true, fun _ => true, fun _ => true, id⟩
  recovery _ := ⟨0, false⟩

def webSession : Session where
  id := []
  createdAt := 0
  updatedAt := 0
  archivedAt := none
  userID := List.replicate 26 'b'
  authenticationGeneration := 0
  mfaRecoveryRequired := false
  clientType := .web
  desktopRegistrationID := []
  dpopKeyThumbprint := []
  desktopRelease := []
  desktopBuildID := []
  desktopPlatform := []
  desktopArchitecture := []
  desktopRealtimeProtocol := 0
  deviceID := []
  deviceName := []
  authenticationMethod := ['p', 'a', 's', 's', 'w', 'o', 'r', 'd']
  authenticationProviderID := []
  externalIdentityID := []
  authenticationStrength := .singleFactor
  authenticatedAt := 0
  reauthenticatedAt := none
  mfaCompletedAt := none
  lastActivityAt := 0
  idleExpiresAt := 8000
  expiresAt := 9000
  revokedAt := none
  revocationReason := none

def newCredential (kind : SessionCredentialKind) (digit : Char) : SessionCredential where
  id := []
  createdAt := 0
  updatedAt := 0
  archivedAt := none
  sessionID := []
  kind := kind
  tokenHash := List.replicate 64 digit
  familyID := []
  parentID := []
  replacedByID := []
  expiresAt := 9000
  usedAt := none
  revokedAt := none

def drawn (c : Char) : Drawn := ⟨List.replicate 26 c, List.replicate 26 'y'⟩

def savedSession : Operation :=
  .save ⟨webSession, [(newCredential .access 'a', drawn 'd'), (newCredential .refresh 'f', drawn 'f')], 3,
    List.replicate 26 'n', 5000, true⟩

def activityAt (at_ : Instant) : Operation := .updateActivity ⟨List.replicate 26 'n', at_, 8000⟩

def revocationAt (at_ : Instant) : SessionRevocation :=
  ⟨List.replicate 26 'n', List.replicate 26 'b', at_, .userLogout, true⟩

/-- The activity precedes the creation of the Session: the row can no longer be read, and the user
cannot log out. -/
theorem early_activity_blocks_revocation :
    ((step plainServer .empty savedSession).sessions.rows.map (·.validate plainServer.formats) = [none]) ∧
      ((step plainServer (step plainServer .empty savedSession) (activityAt 4000)).sessions.rows.map
        (·.validate plainServer.formats) = [some "last_activity_at"]) ∧
      (revoke plainServer (step plainServer (step plainServer .empty savedSession) (activityAt 4000))
        (revocationAt 7000)).map (fun _ => ()) =
          .error (.invalidPersistedState "session" "last_activity_at") :=
  ⟨by decide +kernel, by decide +kernel, by decide +kernel⟩

theorem sessions_stay_readable_web :
    (step plainServer (step plainServer .empty savedSession) (activityAt 6000)).sessions.rows.length = 1 ∧
      Readable plainServer (step plainServer (step plainServer .empty savedSession) (activityAt 6000)) := by
  have hCreated : ∀ s ∈ (step plainServer .empty savedSession).sessions.rows, s.createdAt = 5000 := by
    decide +kernel
  refine ⟨by decide +kernel, ((sessions_stay_readable plainServer).2 _ ?_).2⟩
  refine .next (activityAt 6000) (.next savedSession .start trivial) fun _ _ s hs => ?_
  rw [hCreated s (Table.find_eq_some_iff.mp hs).1]
  decide

end Proctor.Sessions
