import Proctor.FocusLoss.Evaluation
import Proctor.ExamPolicy.Codec

/-! # Focus Loss evaluation over whole runs

The stored evaluation keeps a pruned window that a crossing empties. Here the accepted signals of a
generation are its history; the window, the crossings and the episodes consumed by them are read off
the history, and the stored evaluation is shown to agree with that reading. -/
namespace Proctor.FocusLoss

open Proctor.ExamPolicy List

variable {ι : Type}

/-! ## Reading the history -/

def Accepted.qualifies (policy : FocusLossPolicy) (a : Accepted ι) : Bool :=
  a.report.signal.qualifies policy

def Accepted.row (a : Accepted ι) : PendingRow ι := a.report.row a.decision.missingBefore

def inWindow (policy : FocusLossPolicy) (time : Int) (row : PendingRow ι) : Bool :=
  time - policy.window ≤ row.receivedAt

variable {policy : FocusLossPolicy}

theorem inWindow_iff {time : Int} {row : PendingRow ι} :
    inWindow policy time row ↔ time - policy.window ≤ row.receivedAt := decide_eq_true_iff

def withSignal (policy : FocusLossPolicy) (since : List (PendingRow ι)) (a : Accepted ι) :
    List (PendingRow ι) :=
  if a.qualifies policy then since ++ [a.row] else since

/-- Qualifying signals since the last crossing, and the episodes consumed by crossings. -/
def readSignal (policy : FocusLossPolicy) (read : List (PendingRow ι) × List (PendingRow ι))
    (a : Accepted ι) : List (PendingRow ι) × List (PendingRow ι) :=
  if a.decision.thresholdCrossed then
    ([], read.2 ++ (withSignal policy read.1 a).filter (inWindow policy a.report.databaseNow))
  else (withSignal policy read.1 a, read.2)

def sinceCrossing (policy : FocusLossPolicy) (history : List (Accepted ι)) : List (PendingRow ι) :=
  (history.foldl (readSignal policy) ([], [])).1

def consumedEpisodes (policy : FocusLossPolicy) (history : List (Accepted ι)) :
    List (PendingRow ι) := (history.foldl (readSignal policy) ([], [])).2

theorem sinceCrossing_append (policy : FocusLossPolicy) (history : List (Accepted ι))
    (a : Accepted ι) : sinceCrossing policy (history ++ [a]) =
      if a.decision.thresholdCrossed then [] else withSignal policy (sinceCrossing policy history) a := by
  rw [sinceCrossing, foldl_append, foldl_cons, readSignal]
  split <;> rfl

theorem consumedEpisodes_append (policy : FocusLossPolicy) (history : List (Accepted ι))
    (a : Accepted ι) : consumedEpisodes policy (history ++ [a]) = if a.decision.thresholdCrossed then
        consumedEpisodes policy history ++ (withSignal policy (sinceCrossing policy history) a).filter
            (inWindow policy a.report.databaseNow) else consumedEpisodes policy history := by
  rw [consumedEpisodes, foldl_append, foldl_cons, readSignal]
  split <;> rfl

/-- The qualifying signals since the last crossing that lie in the window at the time. -/
def inSight (policy : FocusLossPolicy) (history : List (Accepted ι)) (time : Int) : List (PendingRow ι) :=
  (sinceCrossing policy history).filter (inWindow policy time)

/-- The signal qualifies, and with it the qualifying signals since the last crossing that lie in its
window number the incident count. -/
def Reaches (policy : FocusLossPolicy) (before : List (Accepted ι)) (a : Accepted ι) : Prop :=
  a.qualifies policy = true ∧
    ((sinceCrossing policy before ++ [a.row]).filter
      (inWindow policy a.report.databaseNow)).length = policy.incidentCount

/-! ## One decision -/

theorem Report.signal_validate (r : Report ι) : r.signal.validate = true := by
  have hGen : ¬r.generation < 1 := not_lt.mpr r.generation_pos
  have hSeq : ¬r.sequence < 1 := not_lt.mpr r.sequence_pos
  have hShort : ¬r.durationMilliseconds < 1 := not_lt.mpr r.duration_pos
  have hLong : ¬r.durationMilliseconds > focusLossMaximumDurationMilliseconds :=
    not_lt.mpr r.duration_le
  simp [FocusLossSignal.validate, Report.signal, hGen, hSeq, hShort, hLong,
    r.databaseNow_ne]

theorem incidentCount_pos (h : validatePolicy policy) :
    1 ≤ policy.incidentCount ∧ 0 ≤ policy.window := by
  unfold validatePolicy at h
  split at h
  · rename_i hOk
    have hFields := (ExamPolicySet.validate_eq_ok_iff _).mp hOk
    obtain ⟨-, -, -, -, -, ⟨hCount, -⟩, ⟨hWin, -⟩, -⟩ := hFields
    refine ⟨hCount, ?_⟩
    have hTen : (0 : Int) ≤ 10 * second := by decide
    exact hTen.trans hWin
  · cases h

theorem decide_spec (e : Evaluation ι) (state : EvaluationState) (hPol : validatePolicy e.policy)
    (hEnabled : e.policy.enabled) (hSignal : e.signal.validate)
    (hAccepted : 0 ≤ state.acceptedSequence) (hNext : state.acceptedSequence < e.signal.sequence)
    (hUnresolved : 0 ≤ state.unresolvedMissingCount) (hDiagnostic : 0 ≤ state.diagnosticCount)
    (hGap : e.signal.sequence - state.acceptedSequence - 1 ≤ maximumInt64 - state.unresolvedMissingCount)
    (hQual : e.qualified → 1 ≤ state.windowIncidentCount ∧
      state.windowIncidentCount ≤ e.policy.incidentCount)
    (hOther : e.qualified = false → 0 ≤ state.windowIncidentCount ∧
      state.windowIncidentCount < e.policy.incidentCount) : ∃ d, e.decide state = .ok d ∧
      d.missingBefore = e.signal.sequence - state.acceptedSequence - 1 ∧
      d.unresolvedMissingCount = state.unresolvedMissingCount + d.missingBefore ∧
      d.diagnosticCount = state.diagnosticCount ∧ d.consumeWindow = d.thresholdCrossed ∧
      (d.thresholdCrossed ↔
        e.qualified ∧ state.windowIncidentCount = e.policy.incidentCount) := by
  have hCount : 0 ≤ state.windowIncidentCount := by
    cases hQ : e.qualified with
    | true => exact (by omega : (0 : Int) ≤ 1).trans (hQual hQ).1
    | false => exact (hOther hQ).1
  have hGuard : (!validatePolicy e.policy || !e.signal.validate || decide (state.acceptedSequence < 0) ||
      decide (state.acceptedSequence ≥ e.signal.sequence) || decide (state.windowIncidentCount < 0) ||
      decide (state.unresolvedMissingCount < 0) || decide (state.diagnosticCount < 0)) = false := by
    simp only [hPol, hSignal, Bool.not_true, Bool.or_eq_false_iff, decide_eq_false_iff_not,
      Bool.false_or]
    omega
  unfold Evaluation.decide
  rw [if_neg (by simp [hGuard]), if_neg (by simp [hEnabled]), if_neg (not_lt.mpr hGap)]
  cases hQ : e.qualified with
  | true =>
    obtain ⟨hLow, hHigh⟩ := hQual hQ
    have hRange : ¬(state.windowIncidentCount < 1 ∨ state.windowIncidentCount > e.policy.incidentCount) := by
      omega
    simp only [Bool.true_and, Bool.or_eq_true, decide_eq_true_eq, if_neg hRange, Bool.not_true,
      Bool.false_and, Bool.false_eq_true, if_false]
    by_cases hCross : state.windowIncidentCount ≥ e.policy.incidentCount
    · rw [if_pos hCross]
      exact ⟨_, rfl, rfl, rfl, rfl, rfl, fun _ => ⟨trivial, by omega⟩, fun _ => rfl⟩
    rw [if_neg hCross]
    refine ⟨_, rfl, rfl, rfl, rfl, rfl, fun h => ?_, fun h => absurd (le_of_eq h.2.symm) hCross⟩
    cases h
  | false =>
    obtain ⟨-, hHigh⟩ := hOther hQ
    have hBelow : ¬state.windowIncidentCount ≥ e.policy.incidentCount := by omega
    simp only [Bool.false_and, Bool.false_eq_true, if_false, Bool.not_false, Bool.true_and,
      decide_eq_true_eq, if_neg hBelow]
    refine ⟨_, rfl, rfl, rfl, rfl, rfl, fun h => ?_, fun h => h.1.elim⟩
    cases h

/-! ## Consuming a window -/

structure Holds (state : EvaluationRow ι) (consumed : List (PendingRow ι)) : Prop where
  evidence : state.evidence = consumed.take focusLossMaximumEvidenceEpisodes
  retained : state.retainedEvidenceCount = state.evidence.length
  overflow : state.overflowCount = ((consumed.length - focusLossMaximumEvidenceEpisodes : Nat) : Int)

variable {state : EvaluationRow ι} {consumed rows : List (PendingRow ι)} {next : EvaluationRow ι}

theorem consumeEpisode_holds (h : Holds state consumed) (episode : PendingRow ι)
    (hRoom : (consumed.length : Int) < maximumInt64) :
    Holds (consumeEpisode state episode) (consumed ++ [episode]) := by
  have hCount : state.retainedEvidenceCount =
      min focusLossMaximumEvidenceEpisodes consumed.length := by
    rw [h.retained, h.evidence, length_take]
  unfold consumeEpisode
  split
  · have hShort : consumed.length < focusLossMaximumEvidenceEpisodes := by omega
    refine ⟨?_, by simp [h.retained], ?_⟩
    · simp only [h.evidence]
      rw [take_of_length_le hShort.le, take_of_length_le (by simpa [Nat.succ_le_iff] using hShort)]
    · simp only [h.overflow, length_append, length_singleton]
      omega
  · have hLong : focusLossMaximumEvidenceEpisodes ≤ consumed.length := by omega
    have hBelow : state.overflowCount < maximumInt64 := by
      rw [h.overflow]
      omega
    refine ⟨?_, h.retained, ?_⟩
    · simp only [h.evidence]
      rw [take_append_of_le_length hLong]
    have hNext : state.overflowCount + 1 =
        (((consumed ++ [episode]).length - focusLossMaximumEvidenceEpisodes : Nat) : Int) := by
      rw [h.overflow, length_append, length_singleton]
      omega
    simpa only [if_pos hBelow] using hNext

theorem consumeEpisodes_holds {episodes : List (PendingRow ι)}
    (h : Holds state consumed) (hRoom : ((consumed ++ episodes).length : Int) ≤ maximumInt64) :
    Holds (episodes.foldl consumeEpisode state) (consumed ++ episodes) := by
  induction episodes generalizing state consumed with
  | nil => simpa using h
  | cons episode rest ih =>
    have hNext := consumeEpisode_holds h episode (by simp at hRoom; omega)
    have hRest := ih hNext (by simpa using hRoom)
    simpa using hRest

/-! ## The stored evaluation and its history -/

/-- The pending window and the evidence of a generation are those of its accepted signals. -/
structure Bucket (policy : FocusLossPolicy) (state : EvaluationRow ι) (history : List (Accepted ι)) :
    Prop where
  rows : state.pending.Sublist (history.map Accepted.row)
  short : (state.pending.length : Int) < policy.incidentCount
  window : ∀ time, (∀ a ∈ history, a.report.databaseNow ≤ time) →
    state.pending.filter (inWindow policy time) =
      (sinceCrossing policy history).filter (inWindow policy time)
  holds : Holds state (consumedEpisodes policy history)
  consumed_le : (consumedEpisodes policy history).length + (sinceCrossing policy history).length ≤
    history.length

/-- The stored evaluation of a generation agrees with the history of its accepted signals. -/
structure Tracks (policy : FocusLossPolicy) (state : EvaluationRow ι) (history : List (Accepted ι)) : Prop
    extends Bucket policy state history where
  increasing : history.Pairwise fun a b =>
    a.report.sequence < b.report.sequence ∧ a.report.databaseNow ≤ b.report.databaseNow
  accepted : ∀ a ∈ history, a.report.sequence ≤ state.acceptedSequence
  last : state.acceptedSequence = (history.getLast?.map (·.report.sequence)).getD 0
  accepted_le : state.acceptedSequence ≤ maximumInt64
  unresolved : state.unresolvedMissingCount = state.acceptedSequence - history.length
  unresolved_nonneg : 0 ≤ state.unresolvedMissingCount
  diagnostic : 0 ≤ state.diagnosticCount
  crossings : ∀ before a after, history = before ++ a :: after →
    (a.decision.thresholdCrossed = true ↔ Reaches policy before a)

theorem tracks_initial (hPol : validatePolicy policy) :
    Tracks policy (EvaluationRow.initial : EvaluationRow ι) [] where
  increasing := List.Pairwise.nil
  accepted := by simp
  last := rfl
  accepted_le := by simp [EvaluationRow.initial, maximumInt64]
  unresolved := rfl
  unresolved_nonneg := le_refl _
  diagnostic := le_refl _
  rows := List.Sublist.refl _
  short := by
    have hCount := (incidentCount_pos hPol).1
    simp only [EvaluationRow.initial, length_nil]
    omega
  window _ _ := rfl
  holds := ⟨rfl, rfl, rfl⟩
  consumed_le := le_refl _
  crossings := by simp

theorem inWindow_self (hPol : validatePolicy policy) (r : Report ι) (missingBefore : Int) :
    inWindow policy r.databaseNow (r.row missingBefore) := by
  have hWin := (incidentCount_pos hPol).2
  exact inWindow_iff.mpr (by simp only [Report.row]; omega)

variable {history : List (Accepted ι)} {r : Report ι}

section

variable (h : Tracks policy state history) (hTimes : ∀ a ∈ history, a.report.databaseNow ≤ r.databaseNow)
include h hTimes

theorem Tracks.kept_eq {qualified : Bool} : (state.pending.filter fun row =>
        !(row.receivedAt < Evaluation.windowStartsAt ⟨policy, r.signal, qualified⟩)) =
      inSight policy history r.databaseNow := by
  rw [inSight, ← h.window r.databaseNow hTimes]
  refine filter_congr fun row _ => ?_
  rw [Bool.eq_iff_iff, inWindow_iff, Bool.not_eq_true', decide_eq_false_iff_not, not_lt]
  rfl

theorem Tracks.kept_le :
    ((inSight policy history r.databaseNow).length : Int) < policy.incidentCount := by
  rw [inSight, ← h.window r.databaseNow hTimes]
  have hLen := length_filter_le (inWindow policy r.databaseNow) state.pending
  have hShort := h.short
  omega

theorem Tracks.kept_rows :
    (inSight policy history r.databaseNow).Sublist (history.map Accepted.row) := by
  rw [inSight, ← h.window r.databaseNow hTimes]
  exact filter_sublist.trans h.rows

end

theorem Tracks.maintainWindow_eq (hEnabled : policy.enabled) (h : Tracks policy state history)
    (hTimes : ∀ a ∈ history, a.report.databaseNow ≤ r.databaseNow) (qualified : Bool) :
    maintainWindow ⟨policy, r.signal, qualified⟩ r state.pending =
      inSight policy history r.databaseNow ++ if qualified then [r.row 0] else [] := by
  rw [maintainWindow, h.kept_eq hTimes, Evaluation.retainInWindow, hEnabled]
  cases qualified <;> simp

variable {d : Decision}

theorem reaches_iff (hPol : validatePolicy policy) :
    Reaches policy history ⟨r, d⟩ ↔ r.signal.qualifies policy ∧
      ((inSight policy history r.databaseNow).length : Int) + 1 = policy.incidentCount := by
  have hSelf : inWindow policy r.databaseNow (Accepted.row ⟨r, d⟩) := inWindow_self hPol r _
  unfold Reaches
  simp only [filter_append, filter_cons_of_pos hSelf, filter_nil, length_append,
    length_singleton, Int.natCast_add]
  rfl

theorem map_missingBefore (missingBefore : Int)
    (hRows : ∀ row ∈ rows, row.sequence < r.sequence) :
    ((rows ++ [r.row 0]).filter fun row => row.sequence = r.sequence).length = 1 ∧
    ((rows ++ [r.row 0]).map fun row =>
        if row.sequence = r.sequence then { row with missingBefore := missingBefore } else row) =
      rows ++ [r.row missingBefore] := by
  constructor
  · have hNone : (rows.filter fun row => row.sequence = r.sequence) = [] :=
      filter_eq_nil_iff.mpr fun row hRow => by
        have hLess := hRows row hRow
        simp only [decide_eq_true_eq]
        omega
    rw [filter_append, hNone]
    simp [Report.row]
  · rw [map_append]
    congr 1
    · refine (map_congr_left fun row hRow => ?_).trans (map_id rows)
      have hLess := hRows row hRow
      rw [if_neg (by omega)]
      rfl
    · simp [Report.row]

/-- The decision on a new signal: no impossible state arises, and the threshold is crossed exactly
when the history with this signal reaches it. -/
theorem Tracks.decide (hPol : validatePolicy policy)
    (hEnabled : policy.enabled) (h : Tracks policy state history)
    (hTimes : ∀ a ∈ history, a.report.databaseNow ≤ r.databaseNow)
    (hNew : state.acceptedSequence < r.sequence) : ∃ d, decideFocusLoss policy state r = .ok (d,
        withSignal policy (inSight policy history r.databaseNow) ⟨r, d⟩) ∧
      d.missingBefore = r.sequence - state.acceptedSequence - 1 ∧
      d.unresolvedMissingCount = state.unresolvedMissingCount + d.missingBefore ∧
      d.diagnosticCount = state.diagnosticCount ∧ d.consumeWindow = d.thresholdCrossed ∧
      (d.thresholdCrossed ↔ Reaches policy history ⟨r, d⟩) := by
  have hUnresolved := h.unresolved
  have hNonneg := h.unresolved_nonneg
  have hKept := h.kept_le hTimes
  have hRows := (h.kept_rows hTimes).subset
  have hBelow : ∀ row ∈ inSight policy history r.databaseNow, row.sequence < r.sequence := by
    intro row hRow
    obtain ⟨a, ha, rfl⟩ := mem_map.mp (hRows hRow)
    exact (h.accepted a ha).trans_lt hNew
  let e : Evaluation ι := ⟨policy, r.signal, r.signal.qualifies policy⟩
  let given : EvaluationState := ⟨state.acceptedSequence, (maintainWindow e r state.pending).length,
    state.unresolvedMissingCount, state.diagnosticCount, state.flagged, state.warningCreated⟩
  have hCount : given.windowIncidentCount =
      ((inSight policy history r.databaseNow).length : Int) + if r.signal.qualifies policy then 1 else 0 := by
    simp only [given, e, h.maintainWindow_eq hEnabled hTimes, length_append, Int.natCast_add]
    split <;> rfl
  have hGap : r.sequence - state.acceptedSequence - 1 ≤ maximumInt64 - state.unresolvedMissingCount := by
    have hLast := r.sequence_le
    omega
  obtain ⟨d, hDecide, hMiss, hSum, hDiagnostic, hConsume, hCross⟩ :=
    decide_spec e given hPol hEnabled r.signal_validate (show 0 ≤ state.acceptedSequence by omega) hNew
      hNonneg h.diagnostic hGap
      (fun hQual => by
        rw [hCount, if_pos hQual]
        simp only [e]
        omega)
      (fun hQual => by
        rw [hCount, if_neg (by simp [show r.signal.qualifies policy = false from hQual])]
        simp only [e]
        omega)
  have hReach : d.thresholdCrossed ↔ Reaches policy history ⟨r, d⟩ := by
    rw [hCross, reaches_iff hPol]
    refine and_congr_right fun hQual => ?_
    rw [hCount, if_pos hQual]
  refine ⟨d, ?_, hMiss, hSum, hDiagnostic, hConsume, hReach⟩
  have hNewEvaluation : newFocusLossEvaluation policy r.signal = some e := by
    rw [newFocusLossEvaluation, if_pos (by simp [hPol, r.signal_validate])]
  unfold decideFocusLoss
  rw [if_neg (by simp [r.signal_validate]), hNewEvaluation]
  simp only
  rw [show e.decide ⟨state.acceptedSequence, (maintainWindow e r state.pending).length,
    state.unresolvedMissingCount, state.diagnosticCount, state.flagged, state.warningCreated⟩ =
      .ok d from hDecide]
  simp only [e, h.maintainWindow_eq hEnabled hTimes, Evaluation.retainInWindow, hEnabled,
    Bool.true_and]
  cases hQual : r.signal.qualifies policy with
  | true =>
    obtain ⟨hOne, hMap⟩ := map_missingBefore d.missingBefore hBelow
    have hSignal : Accepted.qualifies policy ⟨r, d⟩ := hQual
    simp only [if_true]
    rw [if_neg (by rw [hOne]; simp), hMap, withSignal, if_pos hSignal]
    rfl
  | false =>
    have hSignal : ¬Accepted.qualifies policy ⟨r, d⟩ := by simp [Accepted.qualifies, hQual]
    rw [withSignal, if_neg hSignal]
    simp

/-! ## One accepted signal -/

theorem recordFocusLoss_inv
    (hRec : recordFocusLoss policy state r = .ok (.recorded d, next)) :
    state.acceptedSequence < r.sequence ∧ ∃ pending, decideFocusLoss policy state r = .ok (d, pending) ∧
      next = applyFocusLossDecision { state with pending := pending } r d := by
  unfold recordFocusLoss at hRec
  split at hRec
  · split at hRec
    · cases hRec
    · split at hRec <;> cases hRec
  rename_i hNew
  refine ⟨not_le.mp hNew, ?_⟩
  split at hRec
  · cases hRec
  split at hRec
  · cases hRec
  rename_i pending hDecide
  cases hRec
  exact ⟨pending, hDecide, rfl⟩

variable {a : Accepted ι}

theorem filter_withSignal {since : List (PendingRow ι)} {now time : Int} (hTime : now ≤ time) :
    (withSignal policy (since.filter (inWindow policy now)) a).filter (inWindow policy time) =
      (withSignal policy since a).filter (inWindow policy time) := by
  have hTwice : (since.filter (inWindow policy now)).filter (inWindow policy time) =
      since.filter (inWindow policy time) := by
    rw [filter_filter]
    refine filter_congr fun row _ => ?_
    rw [Bool.eq_iff_iff, Bool.and_eq_true, inWindow_iff, inWindow_iff]
    constructor
    · exact fun h => h.1
    · exact fun h => ⟨h, by omega⟩
  unfold withSignal
  split
  · rw [filter_append, filter_append, hTwice]
  · exact hTwice

theorem withSignal_filter_self (hPol : validatePolicy policy)
    (since : List (PendingRow ι)) (a : Accepted ι) :
    (withSignal policy since a).filter (inWindow policy a.report.databaseNow) =
      withSignal policy (since.filter (inWindow policy a.report.databaseNow)) a := by
  have hSelf : inWindow policy a.report.databaseNow a.row := inWindow_self hPol _ _
  unfold withSignal
  split
  · rw [filter_append, filter_cons_of_pos hSelf, filter_nil]
  · rfl

theorem PendingRow.le_iff {a b : PendingRow ι} : a.le b ↔
    a.receivedAt < b.receivedAt ∨ (a.receivedAt = b.receivedAt ∧ a.sequence ≤ b.sequence) := by
  simp [PendingRow.le]

theorem mergeSort_rows (hOrder : history.Pairwise fun a b =>
      a.report.sequence < b.report.sequence ∧ a.report.databaseNow ≤ b.report.databaseNow)
    (hRows : rows.Sublist (history.map Accepted.row)) :
    rows.mergeSort PendingRow.le = rows := by
  refine mergeSort_of_pairwise (List.Pairwise.sublist hRows ?_)
  rw [pairwise_map]
  refine hOrder.imp fun {a b} hab => PendingRow.le_iff.mpr ?_
  simp only [Accepted.row, Report.row]
  omega

theorem apply_consumed
    (h : Holds state consumed) (hConsume : d.consumeWindow)
    (hSorted : rows.mergeSort PendingRow.le = rows)
    (hRoom : ((consumed ++ rows).length : Int) ≤ maximumInt64) :
    Holds (applyFocusLossDecision { state with pending := rows } r d) (consumed ++ rows) ∧
      (applyFocusLossDecision { state with pending := rows } r d).pending = [] := by
  have hStart : Holds { state with pending := rows, flagged := state.flagged || d.createFlag } consumed :=
    ⟨h.evidence, h.retained, h.overflow⟩
  have hEnd := consumeEpisodes_holds hStart hRoom
  simp only [applyFocusLossDecision, hConsume, if_true, consumeFocusLossBucket, hSorted]
  exact ⟨⟨hEnd.evidence, hEnd.retained, hEnd.overflow⟩, trivial⟩

theorem apply_kept
    (h : Holds state consumed) (hConsume : d.consumeWindow = false) (rows : List (PendingRow ι)) :
    Holds (applyFocusLossDecision { state with pending := rows } r d) consumed ∧
      (applyFocusLossDecision { state with pending := rows } r d).pending = rows := by
  simp only [applyFocusLossDecision, hConsume, Bool.false_eq_true, if_false]
  exact ⟨⟨h.evidence, h.retained, h.overflow⟩, trivial⟩

theorem crossings_append (h : ∀ before b after, history = before ++ b :: after →
      (b.decision.thresholdCrossed ↔ Reaches policy before b))
    (ha : a.decision.thresholdCrossed ↔ Reaches policy history a) :
    ∀ before b after, history ++ [a] = before ++ b :: after →
      (b.decision.thresholdCrossed ↔ Reaches policy before b) := by
  intro before b after hSplit
  rcases eq_nil_or_concat after with rfl | ⟨front, last, rfl⟩
  · obtain ⟨rfl, hLast⟩ := append_inj' hSplit rfl
    cases hLast
    exact ha
  · rw [concat_eq_append, ← cons_append, ← append_assoc] at hSplit
    exact h before b front (append_inj' hSplit rfl).1

theorem length_withSignal_le (policy : FocusLossPolicy) (since : List (PendingRow ι)) (a : Accepted ι) :
    (withSignal policy since a).length ≤ since.length + 1 := by
  unfold withSignal
  split <;> simp

section Recording

variable (h : Tracks policy state history)
  (hTimes : ∀ b ∈ history, b.report.databaseNow ≤ a.report.databaseNow)
include h hTimes

theorem Tracks.increasing_append (hNew : state.acceptedSequence < a.report.sequence) :
    (history ++ [a]).Pairwise fun b c =>
      b.report.sequence < c.report.sequence ∧ b.report.databaseNow ≤ c.report.databaseNow := by
  refine pairwise_append.mpr ⟨h.increasing, pairwise_singleton _ _, fun b hb c hc => ?_⟩
  rw [mem_singleton.mp hc]
  exact ⟨(h.accepted b hb).trans_lt hNew, hTimes b hb⟩

theorem Tracks.withSignal_rows :
    (withSignal policy (inSight policy history a.report.databaseNow) a).Sublist
      ((history ++ [a]).map Accepted.row) := by
  rw [map_append]
  unfold withSignal
  split
  · exact (h.kept_rows hTimes).append (List.Sublist.refl _)
  · exact (h.kept_rows hTimes).trans (sublist_append_left _ _)

/-- A crossing empties the window into the evidence. -/
theorem Tracks.bucket_crossed (hPol : validatePolicy policy)
    (hNew : state.acceptedSequence < a.report.sequence) (hCrossed : a.decision.thresholdCrossed)
    (hConsume : a.decision.consumeWindow) :
    Bucket policy (applyFocusLossDecision { state with
      pending := withSignal policy (inSight policy history a.report.databaseNow) a } a.report a.decision)
      (history ++ [a]) := by
  have hWin : _ = withSignal policy (inSight policy history a.report.databaseNow) a :=
    withSignal_filter_self hPol (sinceCrossing policy history) a
  have hFilter := length_filter_le (inWindow policy a.report.databaseNow)
    (withSignal policy (sinceCrossing policy history) a)
  rw [hWin] at hFilter
  have hLen := length_withSignal_le policy (sinceCrossing policy history) a
  have hConsumed := h.consumed_le
  have hRoom : ((consumedEpisodes policy history ++
      withSignal policy (inSight policy history a.report.databaseNow) a).length : Int) ≤ maximumInt64 := by
    have hUnresolved := h.unresolved
    have hNonneg := h.unresolved_nonneg
    have hLast := a.report.sequence_le
    rw [length_append]
    omega
  obtain ⟨hHolds, hPend⟩ := apply_consumed (r := a.report) h.holds hConsume
    (mergeSort_rows (h.increasing_append hTimes hNew) (h.withSignal_rows hTimes)) hRoom
  have hSince : sinceCrossing policy (history ++ [a]) = [] := by
    rw [sinceCrossing_append, if_pos hCrossed]
  have hEpisodes : consumedEpisodes policy (history ++ [a]) = consumedEpisodes policy history ++
      withSignal policy (inSight policy history a.report.databaseNow) a := by
    rw [consumedEpisodes_append, if_pos hCrossed, hWin]
  refine ⟨hPend ▸ nil_sublist _, ?_, fun _ _ => by rw [hPend, hSince], hEpisodes ▸ hHolds, ?_⟩
  · rw [hPend, length_nil]
    have := h.short
    omega
  · rw [hSince, hEpisodes]
    simp only [length_append, length_nil, length_singleton]
    omega

/-- Any other signal leaves the evidence alone. -/
theorem Tracks.bucket_kept (hPol : validatePolicy policy) (hCrossed : a.decision.thresholdCrossed = false)
    (hStill : ¬Reaches policy history a) (hConsume : a.decision.consumeWindow = false) :
    Bucket policy (applyFocusLossDecision { state with
      pending := withSignal policy (inSight policy history a.report.databaseNow) a } a.report a.decision)
      (history ++ [a]) := by
  obtain ⟨hHolds, hPend⟩ := apply_kept (r := a.report) h.holds hConsume
    (withSignal policy (inSight policy history a.report.databaseNow) a)
  have hSince : sinceCrossing policy (history ++ [a]) = withSignal policy (sinceCrossing policy history) a := by
    rw [sinceCrossing_append, hCrossed]
    rfl
  have hEpisodes : consumedEpisodes policy (history ++ [a]) = consumedEpisodes policy history := by
    rw [consumedEpisodes_append, hCrossed]
    rfl
  have hShort := h.kept_le hTimes
  refine ⟨?_, ?_, fun time hTime => ?_, hEpisodes ▸ hHolds, ?_⟩
  · rw [hPend]
    exact h.withSignal_rows hTimes
  · rw [hPend]
    rw [reaches_iff hPol, not_and] at hStill
    unfold withSignal
    split
    · next hQualifies =>
      have hBelow := hStill hQualifies
      rw [length_append, length_singleton]
      omega
    · exact hShort
  · rw [hPend, hSince]
    exact filter_withSignal (hTime a (by simp))
  · have hLen := length_withSignal_le policy (sinceCrossing policy history) a
    have hConsumed := h.consumed_le
    rw [hSince, hEpisodes, length_append, length_singleton]
    omega

end Recording

section

variable (hPol : validatePolicy policy) (hEnabled : policy.enabled)
include hPol hEnabled

theorem Tracks.record (h : Tracks policy state history)
    (hTimes : ∀ b ∈ history, b.report.databaseNow ≤ a.report.databaseNow)
    (hRec : recordFocusLoss policy state a.report = .ok (.recorded a.decision, next)) :
    Tracks policy next (history ++ [a]) := by
  obtain ⟨hNew, pending, hDecided, rfl⟩ := recordFocusLoss_inv hRec
  obtain ⟨d, hDecide, hMiss, hSum, hDiagnostic, hConsume, hCross⟩ :=
    h.decide hPol hEnabled hTimes hNew
  obtain ⟨rfl, rfl⟩ := Prod.mk.inj (Except.ok.inj (hDecide.symm.trans hDecided))
  have hUnresolved := h.unresolved
  have hNonneg := h.unresolved_nonneg
  have hBucket : Bucket policy (applyFocusLossDecision { state with
      pending := withSignal policy (inSight policy history a.report.databaseNow) a } a.report a.decision)
      (history ++ [a]) := by
    cases hCrossed : a.decision.thresholdCrossed with
    | true => exact h.bucket_crossed hTimes hPol hNew hCrossed (hConsume.trans hCrossed)
    | false =>
      have hStill : ¬Reaches policy history a := fun hReaches => by
        rw [hCross.mpr hReaches] at hCrossed
        cases hCrossed
      exact h.bucket_kept hTimes hPol hCrossed hStill (hConsume.trans hCrossed)
  exact { hBucket with
    increasing := h.increasing_append hTimes hNew
    accepted := forall_mem_append.mpr
      ⟨fun b hb => ((h.accepted b hb).trans_lt hNew).le, forall_mem_singleton.mpr le_rfl⟩
    last := by simp [applyFocusLossDecision]
    accepted_le := a.report.sequence_le
    unresolved := by
      simp only [applyFocusLossDecision]
      rw [hSum, length_append, length_singleton]
      omega
    unresolved_nonneg := by
      simp only [applyFocusLossDecision]
      omega
    diagnostic := by
      simp only [applyFocusLossDecision, hDiagnostic]
      exact h.diagnostic
    crossings := crossings_append h.crossings hCross }

/-! ## Runs -/

def ofGeneration (generation : Int) (accepted : List (Accepted ι)) : List (Accepted ι) :=
  accepted.filter fun a => a.report.generation = generation

theorem Tracks.recordable (h : Tracks policy state history)
    (hTimes : ∀ b ∈ history, b.report.databaseNow ≤ r.databaseNow)
    (hNew : state.acceptedSequence < r.sequence) (hActive : r.active) :
    ∃ d next, recordFocusLoss policy state r = .ok (.recorded d, next) := by
  obtain ⟨d, hDecide, -⟩ := h.decide hPol hEnabled hTimes hNew
  rw [recordFocusLoss, if_neg (not_le.mpr hNew), if_neg (by simp [hActive]), hDecide]
  exact ⟨d, _, rfl⟩

theorem runReports_tracks (reports : List (Report ι))
    (hOrd : reports.Pairwise fun a b => a.databaseNow ≤ b.databaseNow)
    (attempt : Evaluations ι) (accepted : List (Accepted ι))
    (hBefore : ∀ a ∈ accepted, ∀ r ∈ reports, a.report.databaseNow ≤ r.databaseNow)
    (h : ∀ generation, Tracks policy (attempt generation) (ofGeneration generation accepted)) :
    ∀ generation, Tracks policy ((runReports policy attempt reports).1 generation)
      (ofGeneration generation (accepted ++ (runReports policy attempt reports).2)) := by
  induction reports generalizing attempt accepted with
  | nil => simpa [runReports] using h
  | cons r rest ih =>
    obtain ⟨hFirst, hRest⟩ := pairwise_cons.mp hOrd
    have hSkip : ∀ a ∈ accepted, ∀ b ∈ rest, a.report.databaseNow ≤ b.databaseNow :=
      fun a ha b hb => hBefore a ha b (mem_cons_of_mem _ hb)
    rw [runReports]
    split
    · rename_i d next hRec
      have hTimes : ∀ b ∈ ofGeneration r.generation accepted,
          b.report.databaseNow ≤ r.databaseNow := fun b hb =>
        hBefore b (mem_filter.mp hb).1 r mem_cons_self
      have hNext : Tracks policy next (ofGeneration r.generation (accepted ++ [⟨r, d⟩])) := by
        have hStep := (h r.generation).record (a := ⟨r, d⟩) hPol hEnabled hTimes hRec
        simpa [ofGeneration] using hStep
      have hEnd := ih hRest (Function.update attempt r.generation next) (accepted ++ [⟨r, d⟩])
        (fun a ha b hb => by
          rcases mem_append.mp ha with hOld | hNew
          · exact hSkip a hOld b hb
          · rw [mem_singleton.mp hNew]
            exact hFirst b hb)
        (fun generation => by
          by_cases hGen : generation = r.generation
          · rw [hGen, Function.update_self]
            exact hNext
          have hOther : ofGeneration generation (accepted ++ [⟨r, d⟩]) =
              ofGeneration generation accepted := by
            simp [ofGeneration, Ne.symm hGen]
          rw [Function.update_of_ne hGen, hOther]
          exact h generation)
      simpa using hEnd
    · exact ih hRest attempt accepted hSkip h

end

/-- For an enabled valid policy and any run of reports with nondecreasing receipt times, in each
generation of the Attempt: a signal crosses the threshold exactly when it qualifies and, with it, the
qualifying signals since the last crossing that lie in its window number the incident count; the
decision on a further signal meets no impossible state; the unresolved missing count is the highest
sequence less the number of accepted signals; and the consumed episodes are the retained ones, at
most a hundred, and those counted as overflow. -/
theorem focusLoss_generation_exact {policy : FocusLossPolicy} (hPolicy : validatePolicy policy = true)
    (hEnabled : policy.enabled = true) (reports : List (Report ι))
    (hOrdered : reports.Pairwise fun a b => a.databaseNow ≤ b.databaseNow) (generation : Int) :
    let run := runReports policy (fun _ => EvaluationRow.initial) reports
    let state := run.1 generation
    let history := ofGeneration generation run.2
    (∀ before a after, history = before ++ a :: after →
      (a.decision.thresholdCrossed = true ↔ Reaches policy before a)) ∧
    (∀ r : Report ι, (∀ a ∈ history, a.report.databaseNow ≤ r.databaseNow) →
      state.acceptedSequence < r.sequence → r.active = true →
      ∃ d next, recordFocusLoss policy state r = .ok (.recorded d, next)) ∧
    state.acceptedSequence = (history.getLast?.map (·.report.sequence)).getD 0 ∧
    (∀ a ∈ history, a.report.sequence ≤ state.acceptedSequence) ∧
    state.unresolvedMissingCount = state.acceptedSequence - history.length ∧
    state.evidence = (consumedEpisodes policy history).take 100 ∧
    state.evidence.length ≤ 100 ∧ state.retainedEvidenceCount = state.evidence.length ∧
    state.overflowCount + state.evidence.length = (consumedEpisodes policy history).length := by
  have h := runReports_tracks hPolicy hEnabled reports hOrdered (fun _ => EvaluationRow.initial) []
    (by simp) (fun _ => tracks_initial hPolicy) generation
  rw [nil_append] at h
  have hEvidence := h.holds.evidence
  have hOverflow := h.holds.overflow
  unfold focusLossMaximumEvidenceEpisodes at hEvidence hOverflow
  refine ⟨h.crossings, fun r hTimes hNew hActive => h.recordable hPolicy hEnabled hTimes hNew hActive,
    h.last, h.accepted, h.unresolved, hEvidence, ?_, h.holds.retained, ?_⟩
  · rw [hEvidence, length_take]
    omega
  · rw [hEvidence, length_take]
    omega

def twoIncidents : FocusLossPolicy :=
  { enabled := true, minimumDuration := 500 * millisecond, incidentCount := 2, window := 10 * second
    outcome := integrityOutcomeFlag }

def signalOf (generation sequence seconds : Nat) (hGeneration : 1 ≤ generation)
    (hSequence : 1 ≤ sequence ∧ sequence ≤ 100) (hSeconds : 1 ≤ seconds) : Report Nat where
  signalID := sequence
  evidenceID := sequence
  generation := generation
  sequence := sequence
  durationMilliseconds := 1000
  source := none
  databaseNow := seconds * second
  active := true
  replayAccess := true
  generation_pos := by omega
  sequence_pos := by omega
  sequence_le := by unfold maximumInt64; omega
  duration_pos := by decide
  duration_le := by decide
  databaseNow_ne := by unfold second millisecond; omega

theorem twoIncidents_valid : validatePolicy twoIncidents = true := by decide +kernel

def gapInGeneration : List (Report Nat) :=
  [signalOf 1 1 1 (by decide) (by decide) (by decide), signalOf 1 3 2 (by decide) (by decide) (by decide)]

theorem focusLoss_generation_exact_gap : ((runReports twoIncidents (fun _ => EvaluationRow.initial)
        gapInGeneration).1 1).unresolvedMissingCount =
      ((runReports twoIncidents (fun _ => EvaluationRow.initial) gapInGeneration).1 1).acceptedSequence -
        (ofGeneration 1 (runReports twoIncidents (fun _ => EvaluationRow.initial)
          gapInGeneration).2).length :=
  (focusLoss_generation_exact twoIncidents_valid rfl gapInGeneration (by decide +kernel) 1).2.2.2.2.1

def twoGenerations : List (Report Nat) :=
  [signalOf 1 1 1 (by decide) (by decide) (by decide), signalOf 2 1 2 (by decide) (by decide) (by decide)]

/-- Over a whole Attempt the signals are not counted together: of two qualifying signals a second
apart, in different generations, the second does not cross a threshold of two. -/
theorem focusLoss_attempt_counted_apart :
    ∃ a b, (runReports twoIncidents (fun _ => EvaluationRow.initial) twoGenerations).2 = [a, b] ∧
      Reaches twoIncidents [a] b ∧ b.decision.thresholdCrossed = false := by
  refine ⟨_, _, rfl, ⟨?_, ?_⟩, ?_⟩
  · decide +kernel
  · decide +kernel
  · decide +kernel

end Proctor.FocusLoss
