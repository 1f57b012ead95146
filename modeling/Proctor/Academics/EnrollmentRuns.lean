import Proctor.Academics.Enrollment
import Proctor.Transition.Basic

/-! # Enrollments along every run

The writers of `class_members` do one of three things to a row: they append one whose interval no
other row of its User and Academic Period meets, they end one that has no end, or they do the second
and then the first. Intervals only shrink, so they stay apart. -/
namespace Proctor.Academics

open Fallible Keyed Transition List Table

variable {ι : Type}

/-! ## Intervals -/

theorem before_mono {t t' : Instant} (h : t ≤ t') {endsAt : Option Instant}
    (hBefore : before t' endsAt = true) : before t endsAt := by
  cases endsAt with
  | none => rfl
  | some e => exact decide_eq_true (lt_of_le_of_lt h (of_decide_eq_true hBefore))

theorem Interval.overlaps_comm (i j : Interval) : i.overlaps j = j.overlaps i := Bool.and_comm _ _

/-- Intervals that share an instant overlap in the sense of the queries. -/
theorem Interval.overlaps_of_covers {i j : Interval} {t : Instant} (hi : i.covers t) (hj : j.covers t) :
    i.overlaps j = true :=
  Bool.and_eq_true_iff.mpr ⟨before_mono hi.1 hj.2, before_mono hj.1 hi.2⟩

/-! ## Rows that stay apart -/

def Rivals (m n : ClassMember ι) : Prop :=
  m.archivedAt = none ∧ n.archivedAt = none ∧ m.userID = n.userID ∧ m.academicPeriodID = n.academicPeriodID

theorem Rivals.symm {m n : ClassMember ι} (h : Rivals m n) : Rivals n m :=
  ⟨h.2.1, h.1, h.2.2.1.symm, h.2.2.2.symm⟩

structure Apart (rows : List (ClassMember ι)) : Prop where
  proper : ∀ m ∈ rows, before m.effective.startsAt m.effective.endsAt = true
  apart : ∀ m ∈ rows, ∀ n ∈ rows, Rivals m n → m.id ≠ n.id → m.effective.overlaps n.effective = false

variable {m : ClassMember ι}

theorem Apart.append {rows : List (ClassMember ι)} (h : Apart rows)
    (hProper : before m.effective.startsAt m.effective.endsAt)
    (hFree : ∀ n ∈ rows, Rivals m n → m.effective.overlaps n.effective = false) : Apart (rows ++ [m]) := by
  refine ⟨?_, fun x hx y hy hRivals hNe => ?_⟩
  · exact forall_mem_append.mpr ⟨h.proper, forall_mem_singleton.mpr hProper⟩
  rw [mem_append, mem_singleton] at hx hy
  rcases hx with hOld | rfl <;> rcases hy with hOld' | rfl
  · exact h.apart x hOld y hOld' hRivals hNe
  · rw [Interval.overlaps_comm]
    exact hFree x hOld hRivals.symm
  · exact hFree y hOld' hRivals
  · exact absurd rfl hNe

variable [LinearOrder ι]

inductive EnrollmentChange (rows : List (ClassMember ι)) (m : ClassMember ι) : List (ClassMember ι) → Prop where
  /-- The User is in the Class at that time already. -/
  | kept {old : ClassMember ι} (hOld : old ∈ rows) (hConcerns : old.concerns m) (hClass : old.classID = m.classID)
      (hCovers : old.effective.covers m.effective.startsAt) : EnrollmentChange rows m rows
  | enrolled (hEnded : ∀ n ∈ rows, n.concerns m → n.effective.endsAt ≠ none) :
      EnrollmentChange rows m (rows ++ [m])
  | transferred {old : ClassMember ι} (hOld : old ∈ rows) (hConcerns : old.concerns m)
      (hOpen : old.effective.endsAt = none) (hClass : old.classID ≠ m.classID) :
      EnrollmentChange rows m ((rows.map fun n =>
        if n.id = old.id then old.ended m.effective.startsAt m.updatedAt else n) ++ [m])

inductive AcceptanceChange (rows : List (ClassMember ι)) (m : ClassMember ι) : List (ClassMember ι) → Prop where
  | kept {old : ClassMember ι} (hOld : old ∈ rows) (hConcerns : old.concerns m) (hClass : old.classID = m.classID)
      (hOverlaps : m.effective.overlaps old.effective) : AcceptanceChange rows m rows
  | enrolled (hFree : ∀ n ∈ rows, n.concerns m → m.effective.overlaps n.effective = false) :
      AcceptanceChange rows m (rows ++ [m])

/-- What an operation that goes through does to the memberships. -/
def MembersChange (rows : List (ClassMember ι)) : Operation ι → List (ClassMember ι) → Prop
  | .enroll input, rows' => ∃ m, input.candidate = some m ∧ EnrollmentChange rows m rows'
  | .endEnrollment id _ endAt _ _ _, rows' => ∃ old ∈ rows, old.id = id ∧
      if old.effective.endsAt.isSome then rows' = rows
      else rows' = rows.map fun m => if m.id = id then old.ended endAt endAt else m
  | .accept input, rows' => AcceptanceChange rows input.candidate rows'
  | _, rows' => rows' = rows

theorem newest_mem {ρ : Type} {effective : ρ → Interval} {id : ρ → ι} {rows : List ρ} {r : ρ}
    (h : newest effective id rows = some r) : r ∈ rows :=
  (mem_insertionSort _).mp (mem_of_mem_head? h)

theorem newest_none {ρ : Type} {effective : ρ → Interval} {id : ρ → ι} {rows : List ρ}
    (h : newest effective id rows = none) : rows = [] := by
  have hLen := length_insertionSort (fun a b => (effective b).startsAt < (effective a).startsAt ∨
    (effective a).startsAt = (effective b).startsAt ∧ id a ≤ id b) rows
  rw [head?_eq_none_iff.mp h] at hLen
  exact length_eq_zero_iff.mp hLen.symm

theorem Rivals.concerns {m n : ClassMember ι} (h : Rivals m n) : n.concerns m := by
  simp [ClassMember.concerns, h.2.1, h.2.2.1, h.2.2.2]

variable {endAt : Instant}

/-- A row that has no end may get one after its start. -/
theorem Apart.ended {t : Table fun m : ClassMember ι => m.id} (h : Apart t.rows) {old : ClassMember ι}
    (hOld : old ∈ t.rows) (hOpen : old.effective.endsAt = none) (updatedAt : Instant)
    (hAfter : old.effective.startsAt < endAt) : Apart (t.set (old.ended endAt updatedAt)).rows := by
  have hFind : t.find (old.ended endAt updatedAt).id = some old := find_eq_some_iff.mpr ⟨hOld, rfl⟩
  have hLess : ∀ i : Interval, (old.ended endAt updatedAt).effective.overlaps i →
      old.effective.overlaps i := by
    intro i hOverlaps
    have hEnds := (Bool.and_eq_true_iff.mp hOverlaps).1
    exact Bool.and_eq_true_iff.mpr ⟨hEnds, by rw [hOpen]; rfl⟩
  have hApart : ∀ n ∈ t.rows, n.id ≠ old.id → Rivals (old.ended endAt updatedAt) n →
      (old.ended endAt updatedAt).effective.overlaps n.effective = false := by
    intro n hn hNe hRivals
    exact Bool.eq_false_iff.mpr fun hOverlaps =>
      Bool.eq_false_iff.mp (h.apart old hOld n hn hRivals hNe.symm) (hLess _ hOverlaps)
  refine ⟨fun x hx => ?_, fun x hx y hy hRivals hNe => ?_⟩
  · rcases (mem_set hFind).mp hx with rfl | ⟨hx, -⟩
    · exact decide_eq_true hAfter
    · exact h.proper x hx
  rcases (mem_set hFind).mp hx with rfl | ⟨hx, hxNe⟩ <;>
    rcases (mem_set hFind).mp hy with rfl | ⟨hy, hyNe⟩
  · exact absurd rfl hNe
  · exact hApart y hy hyNe hRivals
  · rw [Interval.overlaps_comm]
    exact hApart x hx hxNe hRivals.symm
  · exact h.apart x hx y hy hRivals hNe

/-! ## The writers -/

variable {isValid : ι → Bool} {db db' : Database ι}

theorem insertMember_ok (h : db.insertMember m = .ok db') :
    db'.affiliations = db.affiliations ∧ db'.members.rows = db.members.rows ++ [m] := by
  unfold Database.insertMember at h
  split at h
  · cases h
  next hIns =>
  cases h
  exact ⟨rfl, (insert_eq_some hIns).2⟩

theorem insertAffiliation_ok {a : Affiliation ι} (h : db.insertAffiliation a = .ok db') :
    db'.members = db.members ∧ db'.affiliations.rows = db.affiliations.rows ++ [a] := by
  unfold Database.insertAffiliation at h
  split at h
  · cases h
  next hIns =>
  cases h
  exact ⟨rfl, (insert_eq_some hIns).2⟩

omit [LinearOrder ι] in
theorem proper_of_validate (h : m.validate isValid) :
    before m.effective.startsAt m.effective.endsAt := by
  simp only [ClassMember.validate, validateEffectiveInterval, Bool.and_eq_true] at h
  exact h.2.2

variable {input : Enrollment ι}

theorem admitEnrollment_ok {previous : Option (ClassMember ι)}
    (h : db.admitEnrollment input m previous = .ok db') :
    db'.affiliations = db.affiliations ∧ db'.members.rows = db.members.rows ++ [m] ∧
      ∀ n ∈ db.members.rows, Rivals m n → previous.map ClassMember.id ≠ some n.id →
        m.effective.overlaps n.effective = false := by
  unfold Database.admitEnrollment at h
  split at h
  · cases h
  obtain ⟨hFree, h⟩ := guard_ok h
  obtain ⟨hAffs, hRows⟩ := insertMember_ok h
  refine ⟨hAffs, hRows, fun n hn hRivals hNe => ?_⟩
  have hNot := any_eq_false.mp (Bool.eq_false_iff.mpr hFree) n hn
  simpa [hRivals.concerns, hNe] using hNot

theorem enrollInTransaction_ok (h : db.enrollInTransaction isValid input m = .ok db') :
    db'.affiliations = db.affiliations ∧ (Apart db.members.rows → Apart db'.members.rows) ∧
      EnrollmentChange db.members.rows m db'.members.rows ∧
      (db' = db ∨ db.hasOpenStudent m ∧ ∀ n ∈ db'.members.rows, n ∈ db.members.rows ∨ n = m ∨
        n.effective.endsAt ≠ none) := by
  obtain ⟨hValid, h⟩ := guard_ok h
  obtain ⟨hStudent, h⟩ := guard_ok h
  have hProper := proper_of_validate (by simpa using hValid)
  have hStudent : db.hasOpenStudent m := by simpa using hStudent
  split at h
  · next hThere =>
    cases h
    obtain ⟨old, hOld⟩ := Option.isSome_iff_exists.mp (Bool.and_eq_true_iff.mp hThere).2
    obtain ⟨hMem, hSel⟩ := mem_filter.mp (newest_mem hOld)
    simp only [Bool.and_eq_true, decide_eq_true_eq] at hSel
    exact ⟨rfl, id, .kept hMem hSel.1.1.1 hSel.1.1.2 ⟨hSel.1.2, hSel.2⟩, .inl rfl⟩
  split at h
  · next hNone =>
    obtain ⟨hAffs, hRows, hFree⟩ := admitEnrollment_ok h
    have hEnded : ∀ n ∈ db.members.rows, n.concerns m → n.effective.endsAt ≠ none := by
      intro n hn hConcerns hOpen
      have hNot := filter_eq_nil_iff.mp (newest_none hNone) n hn
      simp [hConcerns, hOpen] at hNot
    refine ⟨hAffs, fun hApart => ?_, hRows ▸ .enrolled hEnded, .inr ⟨hStudent, fun n hn => ?_⟩⟩
    · rw [hRows]
      exact hApart.append hProper fun n hn hRivals => hFree n hn hRivals nofun
    · rw [hRows, mem_append, mem_singleton] at hn
      exact hn.imp_right .inl
  · next previous hCur =>
    obtain ⟨hPrev, hSel⟩ := mem_filter.mp (newest_mem hCur)
    rw [Bool.and_eq_true, Option.isNone_iff_eq_none] at hSel
    obtain ⟨hConcerns, hOpen⟩ := hSel
    have hFind : db.members.find (previous.ended m.effective.startsAt m.updatedAt).id = some previous :=
      find_eq_some_iff.mpr ⟨hPrev, rfl⟩
    split at h
    · next hClass =>
      split at h
      · next hSame =>
        cases h
        have hSame : previous.effective = m.effective := by simpa using (Bool.and_eq_true_iff.mp hSame).2
        refine ⟨rfl, id, .kept hPrev hConcerns hClass ⟨le_of_eq (by rw [hSame]), ?_⟩, .inl rfl⟩
        rw [hOpen]
        rfl
      · cases h
    · next hClass =>
      obtain ⟨hAfter, h⟩ := guard_ok h
      obtain ⟨hAffs, hRows, hFree⟩ := admitEnrollment_ok h
      refine ⟨hAffs, fun hApart => ?_,
        hRows ▸ .transferred hPrev hConcerns hOpen hClass, .inr ⟨hStudent, fun n hn => ?_⟩⟩
      · rw [hRows]
        refine (hApart.ended hPrev hOpen m.updatedAt (Nat.lt_of_not_le hAfter)).append hProper ?_
        intro n hn hRivals
        rcases (mem_set hFind).mp hn with rfl | ⟨-, hNe⟩
        · -- the check leaves this row out; it ends where the new one starts
          exact Bool.and_eq_false_iff.mpr (.inl (decide_eq_false (lt_irrefl _)))
        · exact hFree n hn hRivals fun hSame => hNe (Option.some.inj hSame).symm
      · rw [hRows, mem_append, mem_singleton] at hn
        rcases hn with hn | hn
        · rcases (mem_set hFind).mp hn with rfl | ⟨hn, -⟩
          · exact .inr (.inr nofun)
          · exact .inl hn
        · exact .inr (.inl hn)

theorem endEnrollment_ok {id : ι} {revision : Nat} {notice command refused : Bool}
    (h : db.endEnrollment id revision endAt notice command refused = .ok db') :
    ∃ old ∈ db.members.rows, old.id = id ∧ (old.effective.endsAt.isSome ∧ db' = db ∨
      old.effective.endsAt = none ∧ old.effective.startsAt < endAt ∧
        db' = { db with members := db.members.set (old.ended endAt endAt) }) := by
  replace h := past_guard h
  split at h
  · cases h
  next old hOld =>
  obtain ⟨hFind, -⟩ := Option.filter_eq_some_iff.mp hOld
  obtain ⟨hMem, hID⟩ := find_eq_some_iff.mp hFind
  refine ⟨old, hMem, hID, ?_⟩
  split at h
  · next hEnded =>
    split at h
    · exact .inl ⟨hEnded, (Except.ok.inj h).symm⟩
    · cases h
  next hOpen =>
  replace h := past_guard h
  replace h := past_guard h
  replace h := past_guard h
  obtain ⟨hAfter, h⟩ := guard_ok h
  exact .inr ⟨by simpa using hOpen, Nat.lt_of_not_le hAfter, (Except.ok.inj h).symm⟩

theorem ensureInvitationStudentAffiliation_ok {input : Acceptance ι}
    (h : db.ensureInvitationStudentAffiliation isValid input = .ok db') :
    db'.members = db.members ∧ (db' = db ∧ (db.currentStudent input.userID input.effectiveStartsAt).isSome ∨
      db'.affiliations.rows = db.affiliations.rows ++ [input.affiliation]) := by
  unfold Database.ensureInvitationStudentAffiliation at h
  split at h
  · next hSome =>
    cases h
    exact ⟨rfl, .inl ⟨rfl, by rw [hSome]; rfl⟩⟩
  · replace h := past_guard h
    replace h := past_guard h
    obtain ⟨hMems, hRows⟩ := insertAffiliation_ok h
    exact ⟨hMems, .inr hRows⟩

theorem ensureInvitationClassMember_ok {input : Acceptance ι}
    (h : db.ensureInvitationClassMember isValid input = .ok db') :
    AcceptanceChange db.members.rows input.candidate db'.members.rows ∧ (db' = db ∨
      db'.affiliations = db.affiliations ∧ db'.members.rows = db.members.rows ++ [input.candidate] ∧
        input.candidate.validate isValid ∧ ∀ n ∈ db.members.rows, n.concerns input.candidate →
          input.candidate.effective.overlaps n.effective = false) := by
  unfold Database.ensureInvitationClassMember at h
  split at h
  · next old hOld =>
    obtain ⟨hAllowed, h⟩ := guard_ok h
    cases h
    obtain ⟨hMem, hSel⟩ := mem_filter.mp (newest_mem hOld)
    rw [Bool.and_eq_true] at hSel
    simp only [Bool.or_eq_true, not_or, decide_eq_true_eq, not_not] at hAllowed
    exact ⟨.kept hMem hSel.1 hAllowed.1.1 hSel.2, .inl rfl⟩
  next hNone =>
  obtain ⟨hValid, h⟩ := guard_ok h
  obtain ⟨hAffs, hRows⟩ := insertMember_ok h
  have hFree : ∀ n ∈ db.members.rows, n.concerns input.candidate →
      input.candidate.effective.overlaps n.effective = false := by
    intro n hn hConcerns
    simpa [hConcerns] using filter_eq_nil_iff.mp (newest_none hNone) n hn
  exact ⟨hRows ▸ .enrolled hFree, .inr ⟨hAffs, hRows, by simpa using hValid, hFree⟩⟩

theorem accept_ok {input : Acceptance ι} (h : db.accept isValid input = .ok db') :
    ∃ next, db.ensureInvitationStudentAffiliation isValid input = .ok next ∧
      next.ensureInvitationClassMember isValid input = .ok db' := by
  replace h := past_guard h
  replace h := past_guard h
  exact bind_ok h

theorem enroll_ok (h : db.enroll isValid input = .ok db') :
    ∃ m, input.candidate = some m ∧ db.enrollInTransaction isValid input m = .ok db' := by
  replace h := past_guard h
  replace h := past_guard h
  split at h
  · cases h
  · next hCandidate => exact ⟨_, hCandidate, h⟩

theorem createAffiliation_ok {candidate : Affiliation ι} {command : Bool}
    (h : db.createAffiliation isValid candidate command = .ok db') :
    db'.members = db.members ∧ ∀ a ∈ db.affiliations.rows, a ∈ db'.affiliations.rows := by
  replace h := past_guard h
  split at h
  · cases h
    exact ⟨rfl, fun _ ha => ha⟩
  replace h := past_guard h
  obtain ⟨hMems, hRows⟩ := insertAffiliation_ok h
  exact ⟨hMems, fun a ha => by rw [hRows]; exact mem_append_left _ ha⟩

/-- An Affiliation that loses its end is no student one, or its User has no open enrollment. -/
theorem endAffiliation_ok {id : ι} {revision : Nat} {command : Bool}
    (h : db.endAffiliation id revision endAt command = .ok db') :
    db'.members = db.members ∧ ∀ a ∈ db.affiliations.rows, a ∈ db'.affiliations.rows ∨
      (a.kind = .student → db.hasOpenEnrollment a.userID = false) := by
  replace h := past_guard h
  split at h
  · cases h
  next current hCur =>
  obtain ⟨hFind, -⟩ := Option.filter_eq_some_iff.mp hCur
  split at h
  · split at h
    · cases h
      exact ⟨rfl, fun _ ha => .inl ha⟩
    · cases h
  · replace h := past_guard h
    replace h := past_guard h
    obtain ⟨hUnused, h⟩ := guard_ok h
    cases h
    obtain ⟨hIn, rfl⟩ := find_eq_some_iff.mp hFind
    refine ⟨rfl, fun a ha => ?_⟩
    by_cases hSame : a.id = current.id
    · obtain rfl := inj_on_of_nodup_map db.affiliations.distinct ha hIn hSame
      exact .inr fun hKind => by simpa [hKind] using hUnused
    · exact .inl ((mem_set (r := current.ended endAt) hFind).mpr (.inr ⟨ha, hSame⟩))

/-! ## No two enrollments at one time -/

theorem execute_members {op : Operation ι} (h : db.execute isValid op = .ok db') :
    (Apart db.members.rows → Apart db'.members.rows) ∧ MembersChange db.members.rows op db'.members.rows := by
  cases op with
  | createAffiliation candidate command =>
    rw [(createAffiliation_ok h).1]
    exact ⟨id, rfl⟩
  | endAffiliation id revision endAt command =>
    rw [(endAffiliation_ok h).1]
    exact ⟨fun hApart => hApart, rfl⟩
  | enroll input =>
    obtain ⟨m, hCandidate, h⟩ := enroll_ok h
    obtain ⟨-, hApart, hChg, -⟩ := enrollInTransaction_ok h
    exact ⟨hApart, m, hCandidate, hChg⟩
  | endEnrollment id revision endAt notice command refused =>
    obtain ⟨old, hOld, rfl, ⟨hEnded, rfl⟩ | ⟨hOpen, hAfter, rfl⟩⟩ := endEnrollment_ok h
    · exact ⟨fun hApart => hApart, old, hOld, rfl, by rw [if_pos hEnded]⟩
    · refine ⟨fun hApart => hApart.ended hOld hOpen endAt hAfter, old, hOld, rfl, ?_⟩
      rw [if_neg (by simp [hOpen])]
      rfl
  | accept input =>
    obtain ⟨next, hFirst, hSecond⟩ := accept_ok h
    rw [← (ensureInvitationStudentAffiliation_ok hFirst).1]
    obtain ⟨hChg, hAfter⟩ := ensureInvitationClassMember_ok hSecond
    refine ⟨fun hApart => ?_, hChg⟩
    obtain rfl | ⟨-, hRows, hValid, hFree⟩ := hAfter
    · exact hApart
    · rw [hRows]
      exact hApart.append (proper_of_validate hValid) fun n hn hRivals => hFree n hn hRivals.concerns

theorem step_invariant {P : Database ι → Prop} (hEmpty : P .empty)
    (hStep : ∀ db op db', P db → db.execute isValid op = .ok db' → P db')
    (h : Reaches (Database.step isValid) .empty db) : P db := by
  refine Reaches.invariant (fun s op t hs hNext => ?_) h hEmpty
  cases hNext
  unfold Database.run
  split
  · next hExec => exact hStep s op _ hs hExec
  · exact hs

structure Disjoint (rows : List (ClassMember ι)) : Prop where
  nonempty : ∀ m ∈ rows, ∃ t, m.effective.covers t
  disjoint : ∀ m ∈ rows, ∀ n ∈ rows, Rivals m n → ∀ t, m.effective.covers t → n.effective.covers t → m = n
  oneOpen : ∀ m ∈ rows, ∀ n ∈ rows, Rivals m n → m.effective.endsAt = none → n.effective.endsAt = none → m = n

omit [LinearOrder ι] in
theorem Apart.disjoint {t : Table fun m : ClassMember ι => m.id} (h : Apart t.rows) : Disjoint t.rows := by
  have hSame : ∀ m ∈ t.rows, ∀ n ∈ t.rows, Rivals m n → m.effective.overlaps n.effective → m = n := by
    intro m hm n hn hRivals hOverlaps
    by_contra hNe
    have hApart := h.apart m hm n hn hRivals fun hSame =>
      hNe (inj_on_of_nodup_map t.distinct hm hn hSame)
    rw [hApart] at hOverlaps
    cases hOverlaps
  refine ⟨fun m hm => ⟨m.effective.startsAt, le_refl _, h.proper m hm⟩, ?_, ?_⟩
  · intro m hm n hn hRivals t hCovers hCovers'
    exact hSame m hm n hn hRivals (Interval.overlaps_of_covers hCovers hCovers')
  intro m hm n hn hRivals hOpen hOpen'
  refine hSame m hm n hn hRivals ?_
  rw [Interval.overlaps, hOpen, hOpen']
  rfl

theorem class_enrollments_never_overlap (h : Reaches (Database.step isValid) .empty db) :
    Disjoint db.members.rows ∧
      (∀ op db', db.execute isValid op = .ok db' → MembersChange db.members.rows op db'.members.rows) ∧
      ∀ op fault, (db.run isValid op).2 = some fault → (db.run isValid op).1 = db := by
  have hApart : Apart db.members.rows :=
    step_invariant (P := fun db => Apart db.members.rows) ⟨nofun, nofun⟩
      (fun _ _ _ hApart hExec => (execute_members hExec).1 hApart) h
  refine ⟨hApart.disjoint, fun op db' hExec => (execute_members hExec).2, fun op fault hFault => ?_⟩
  unfold Database.run at hFault ⊢
  split
  · next hExec =>
    rw [hExec] at hFault
    cases hFault
  · rfl

/-- A student Affiliation of User 7 and their enrollment into Class 100. -/
def firstEnrollment : List (Operation Nat) :=
  [.createAffiliation ⟨1, 5, 5, none, 1, 7, .student, ⟨5, none⟩⟩ false,
    .enroll ⟨⟨2, 9, 9, none, 1, 100, 0, 7, ⟨10, none⟩⟩, some 50, none, some .classEnrolled, false, false, false⟩]

def transferRun : List (Operation Nat) :=
  firstEnrollment ++ [.enroll ⟨⟨3, 19, 19, none, 1, 101, 0, 7, ⟨20, none⟩⟩, some 50, some 2, some .classTransferred,
    false, false, false⟩]

theorem transfer_keeps_enrollments_apart : ∃ db, transferRun.foldlM (Database.step fun _ => true) .empty =
    some db ∧
    db.members.rows.map (fun m => (m.effective, m.revision)) = [(⟨10, some 20⟩, 2), (⟨20, none⟩, 1)] ∧
    Disjoint db.members.rows := by
  have hRun : transferRun.foldlM (Database.step fun _ => true) .empty =
    some (transferRun.foldl (fun db op => (db.run (fun _ => true) op).1) .empty) := rfl
  exact ⟨_, hRun, by decide, (class_enrollments_never_overlap (reaches_of_foldlM hRun)).1⟩

/-! ## Open enrollments and their Affiliation -/

/-- Every open enrollment has an open student Affiliation that started no later. -/
def Backed (db : Database ι) : Prop :=
  ∀ m ∈ db.members.rows, m.archivedAt = none → m.effective.endsAt = none →
    ∃ a ∈ db.affiliations.rows, a.userID = m.userID ∧ a.kind = .student ∧ a.archivedAt = none ∧
      a.effective.endsAt = none ∧ a.effective.startsAt ≤ m.effective.startsAt

/-- An acceptance without an intended end does not rest on an Affiliation that has one. -/
def Operation.covered (db : Database ι) : Operation ι → Bool
  | .accept input => input.intendedEndsAt.isSome ||
    (db.currentStudent input.userID input.effectiveStartsAt).all fun a => a.effective.endsAt.isNone
  | _ => true

theorem hasOpenStudent_iff : db.hasOpenStudent m ↔
    ∃ a ∈ db.affiliations.rows, a.userID = m.userID ∧ a.kind = .student ∧ a.archivedAt = none ∧
      a.effective.endsAt = none ∧ a.effective.startsAt ≤ m.effective.startsAt := by
  simp only [Database.hasOpenStudent, any_eq_true, Bool.and_eq_true, decide_eq_true_eq,
    Option.isNone_iff_eq_none]
  grind

omit [LinearOrder ι] in
theorem Backed.of_new (h : Backed db) (hKept : ∀ a ∈ db.affiliations.rows, a ∈ db'.affiliations.rows)
    (hNew : ∀ m ∈ db'.members.rows, m ∈ db.members.rows ∨ m.effective.endsAt ≠ none ∨
      ∃ a ∈ db'.affiliations.rows, a.userID = m.userID ∧ a.kind = .student ∧ a.archivedAt = none ∧
        a.effective.endsAt = none ∧ a.effective.startsAt ≤ m.effective.startsAt) : Backed db' := by
  intro m hm hLive hOpen
  rcases hNew m hm with hOld | hEnds | hBacked
  · obtain ⟨a, ha, hFacts⟩ := h m hOld hLive hOpen
    exact ⟨a, hKept a ha, hFacts⟩
  · exact absurd hOpen hEnds
  · exact hBacked

theorem Backed.execute {op : Operation ι} (hBacked : Backed db) (hCovered : op.covered db)
    (h : db.execute isValid op = .ok db') : Backed db' := by
  cases op with
  | createAffiliation candidate command =>
    obtain ⟨hMems, hKept⟩ := createAffiliation_ok h
    exact hBacked.of_new hKept fun m hm => .inl (hMems ▸ hm)
  | endAffiliation id revision endAt command =>
    obtain ⟨hMems, hKept⟩ := endAffiliation_ok h
    intro m hm hLive hOpen
    rw [hMems] at hm
    obtain ⟨a, ha, hUser, hKind, hFacts⟩ := hBacked m hm hLive hOpen
    refine ⟨a, (hKept a ha).resolve_right fun hUnused => ?_, hUser, hKind, hFacts⟩
    have hNot := any_eq_false.mp (hUnused hKind) m hm
    simp [hUser, hLive, hOpen] at hNot
  | enroll input =>
    obtain ⟨m, -, h⟩ := enroll_ok h
    obtain ⟨hAffs, -, -, rfl | ⟨hStudent, hRows⟩⟩ := enrollInTransaction_ok h
    · exact hBacked
    refine hBacked.of_new (fun a ha => hAffs ▸ ha) fun n hn => ?_
    rcases hRows n hn with hOld | rfl | hEnds
    · exact .inl hOld
    · exact .inr (.inr (hAffs ▸ hasOpenStudent_iff.mp hStudent))
    · exact .inr (.inl hEnds)
  | endEnrollment id revision endAt notice command refused =>
    obtain ⟨old, hOld, rfl, ⟨-, rfl⟩ | ⟨-, -, rfl⟩⟩ := endEnrollment_ok h
    · exact hBacked
    refine hBacked.of_new (fun a ha => ha) fun n hn => ?_
    have hFind : db.members.find (old.ended endAt endAt).id = some old := find_eq_some_iff.mpr ⟨hOld, rfl⟩
    rcases (mem_set hFind).mp hn with rfl | ⟨hn, -⟩
    · exact .inr (.inl nofun)
    · exact .inl hn
  | accept input =>
    obtain ⟨next, hFirst, hSecond⟩ := accept_ok h
    obtain ⟨hMems, hAff⟩ := ensureInvitationStudentAffiliation_ok hFirst
    have hKept : ∀ a ∈ db.affiliations.rows, a ∈ next.affiliations.rows := by
      rcases hAff with ⟨rfl, -⟩ | hRows
      · exact fun a ha => ha
      · exact fun a ha => hRows ▸ mem_append_left _ ha
    obtain rfl | ⟨hSame, hRows, -, -⟩ := (ensureInvitationClassMember_ok hSecond).2
    · exact hBacked.of_new hKept fun m hm => .inl (hMems ▸ hm)
    refine hBacked.of_new (fun a ha => hSame ▸ hKept a ha) fun m hm => ?_
    rw [hRows, hMems, mem_append, mem_singleton] at hm
    rcases hm with hOld | rfl
    · exact .inl hOld
    by_cases hEnds : input.intendedEndsAt = none
    · refine .inr (.inr ?_)
      rw [hSame]
      rcases hAff with ⟨rfl, hSome⟩ | hAppended
      · obtain ⟨a, ha⟩ := Option.isSome_iff_exists.mp hSome
        obtain ⟨hIn, hSel⟩ := mem_filter.mp (newest_mem ha)
        simp only [Bool.and_eq_true, decide_eq_true_eq, Option.isNone_iff_eq_none] at hSel
        have hOpen : a.effective.endsAt = none := by simpa [Operation.covered, hEnds, ha] using hCovered
        exact ⟨a, hIn, hSel.1.1.1.1, hSel.1.1.1.2, hSel.1.1.2, hOpen, hSel.1.2⟩
      · exact ⟨input.affiliation, hAppended ▸ mem_append_right _ (mem_singleton_self _), rfl, rfl, rfl,
          rfl, le_refl _⟩
    · exact .inr (.inl hEnds)

def Database.coveredStep (isValid : ι → Bool) (db : Database ι) (op : Operation ι) : Option (Database ι) :=
  if op.covered db then db.step isValid op else none

theorem open_enrollments_backed (h : Reaches (Database.coveredStep isValid) .empty db) : Backed db := by
  refine Reaches.invariant (fun s op t hs hStep => ?_) h nofun
  obtain ⟨hCovered, hStep⟩ := Option.ite_none_right_eq_some.mp hStep
  cases hStep
  unfold Database.run
  split
  · next hExec => exact hs.execute hCovered hExec
  · exact hs

def openAcceptance : Operation Nat := .accept ⟨100, 50, 10, none, 7, 8, 9, 10, 10, false⟩

/-- The enrollment ends, its User comes back by an invitation, and so does a User without an
Affiliation. -/
def acceptanceRun : List (Operation Nat) :=
  firstEnrollment ++ [.endEnrollment 2 1 15 true false false,
    .accept ⟨100, 50, 20, none, 7, 8, 3, 20, 20, false⟩, .accept ⟨100, 50, 20, none, 6, 2, 4, 20, 20, false⟩]

theorem acceptance_opens_affiliation : ∃ db, acceptanceRun.foldlM (Database.coveredStep fun _ => true)
    .empty = some db ∧
    db.members.rows.map (fun m => (m.userID, m.effective)) = [(7, ⟨10, some 15⟩), (7, ⟨20, none⟩), (6, ⟨20, none⟩)] ∧
    db.affiliations.rows.map (fun a => (a.userID, a.effective)) = [(7, ⟨5, none⟩), (6, ⟨20, none⟩)] ∧
    Backed db := by
  have hRun : acceptanceRun.foldlM (Database.coveredStep fun _ => true) .empty =
    some (acceptanceRun.foldl (fun db op => (db.run (fun _ => true) op).1) .empty) := rfl
  exact ⟨_, hRun, by decide, by decide, open_enrollments_backed (reaches_of_foldlM hRun)⟩

/-- The student Affiliation of the User was created with an end at 100. -/
theorem acceptance_outlives_affiliation : ∃ db : Database Nat, Reaches (Database.step fun _ => true) .empty db ∧
    (∃ m ∈ db.members.rows, m.archivedAt = none ∧ m.effective.endsAt = none ∧
      ∀ a ∈ db.affiliations.rows, a.effective.endsAt ≠ none) ∧ ¬Backed db := by
  have hRun : [.createAffiliation ⟨1, 5, 5, none, 1, 7, .student, ⟨5, some 100⟩⟩ false, openAcceptance].foldlM
    (Database.step fun _ => true) .empty = some (Database.run (fun _ => true)
      (Database.run (fun _ => true) .empty
        (.createAffiliation ⟨1, 5, 5, none, 1, 7, .student, ⟨5, some 100⟩⟩ false)).1 openAcceptance).1 := rfl
  refine ⟨_, reaches_of_foldlM hRun, ⟨_, mem_singleton_self _, rfl, rfl, by decide⟩, fun hBacked => ?_⟩
  obtain ⟨a, ha, -, -, -, hOpen, -⟩ := hBacked _ (mem_singleton_self _) rfl rfl
  obtain rfl := mem_singleton.mp ha
  cases hOpen

end Proctor.Academics
