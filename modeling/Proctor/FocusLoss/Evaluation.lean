import Proctor.ExamPolicy.ExamPolicy

/-! # The evaluation of Focus Loss signals

Model of `model/focus_loss.go` and of `recordFocusLoss` in
`sqlstore/exam_attempt_focus_loss_store.go`. Times and durations are nanoseconds, times counted from
the zero time. The row of an evaluation and its pending rows are one record; it belongs to one
generation of an Attempt. Whether the caller may report now is an input of the transaction. -/
namespace Proctor.FocusLoss

open Proctor.ExamPolicy

def focusLossMaximumDurationMilliseconds : Int := 24 * 60 * 60 * 1000

def focusLossMaximumEvidenceEpisodes : Nat := 100

inductive FocusLossSource where
  | windowBlur | documentHidden | applicationBackgrounded | fullscreenExited
  deriving DecidableEq, Repr

structure FocusLossSignal (ι : Type) where
  id : ι
  generation : Int
  sequence : Int
  durationMilliseconds : Int
  source : Option FocusLossSource
  receivedAt : Int
  deriving DecidableEq, Repr

variable {ι : Type}

def FocusLossSignal.validate (s : FocusLossSignal ι) : Bool :=
  !(s.generation < 1 || s.sequence < 1 || s.durationMilliseconds < 1 ||
    s.durationMilliseconds > focusLossMaximumDurationMilliseconds || s.receivedAt = 0)

/-- `FocusLossPolicy.Validate`: the policy in the default set. -/
def validatePolicy (p : FocusLossPolicy) : Bool :=
  match { defaultExamPolicySet with focusLoss := p }.validate with
  | .ok _ => true
  | .error _ => false

def FocusLossSignal.qualifies (s : FocusLossSignal ι) (policy : FocusLossPolicy) : Bool :=
  s.validate && validatePolicy policy && policy.enabled &&
    s.durationMilliseconds * millisecond ≥ policy.minimumDuration

structure EvaluationState where
  acceptedSequence : Int
  windowIncidentCount : Int
  unresolvedMissingCount : Int
  diagnosticCount : Int
  hasOpenFlag : Bool
  candidateWarningCreated : Bool
  deriving DecidableEq, Repr

structure Decision where
  collectionEnabled : Bool
  qualified : Bool
  missingBefore : Int
  unresolvedMissingCount : Int
  diagnosticCount : Int
  windowIncidentCount : Int
  thresholdCrossed : Bool := false
  consumeWindow : Bool := false
  policyOutcome : Text := []
  createFlag : Bool := false
  createCandidateWarning : Bool := false
  notifyManagers : Bool := false
  suspend : Bool := false
  deriving DecidableEq, Repr

/-- The reasons for which `Decide` refuses a state. -/
inductive DecideError where
  | invalidState | disabledWithWindow | gapOverflow | windowCount | crossedWithoutSignal
  deriving DecidableEq, Repr

structure Evaluation (ι : Type) where
  policy : FocusLossPolicy
  signal : FocusLossSignal ι
  qualified : Bool

def newFocusLossEvaluation (policy : FocusLossPolicy) (signal : FocusLossSignal ι) :
    Option (Evaluation ι) :=
  if validatePolicy policy && signal.validate then
    some ⟨policy, signal, signal.qualifies policy⟩
  else none

def Evaluation.windowStartsAt (e : Evaluation ι) : Int := e.signal.receivedAt - e.policy.window

def Evaluation.retainInWindow (e : Evaluation ι) : Bool := e.policy.enabled && e.qualified

def Evaluation.decide (e : Evaluation ι) (state : EvaluationState) : Except DecideError Decision :=
  if !validatePolicy e.policy || !e.signal.validate || state.acceptedSequence < 0 ||
      state.acceptedSequence ≥ e.signal.sequence || state.windowIncidentCount < 0 ||
      state.unresolvedMissingCount < 0 || state.diagnosticCount < 0 then .error .invalidState
  else
    let missingBefore := e.signal.sequence - state.acceptedSequence - 1
    let decision : Decision :=
      { collectionEnabled := e.policy.enabled
        qualified := e.qualified
        missingBefore := missingBefore
        unresolvedMissingCount := state.unresolvedMissingCount
        diagnosticCount := state.diagnosticCount
        windowIncidentCount := state.windowIncidentCount }
    if !e.policy.enabled then
      if state.windowIncidentCount ≠ 0 then .error .disabledWithWindow
      else
        .ok { decision with
          qualified := false
          diagnosticCount :=
            if decision.diagnosticCount < maximumInt64 then decision.diagnosticCount + 1
            else decision.diagnosticCount }
    else if missingBefore > maximumInt64 - state.unresolvedMissingCount then .error .gapOverflow
    else
      let decision :=
        { decision with unresolvedMissingCount := decision.unresolvedMissingCount + missingBefore }
      if e.qualified && (state.windowIncidentCount < 1 ||
          state.windowIncidentCount > e.policy.incidentCount) then .error .windowCount
      else if !e.qualified && state.windowIncidentCount ≥ e.policy.incidentCount then
        .error .crossedWithoutSignal
      else if e.qualified && state.windowIncidentCount ≥ e.policy.incidentCount then
        .ok { decision with
          thresholdCrossed := true
          windowIncidentCount := 0
          consumeWindow := true
          policyOutcome := e.policy.outcome
          createFlag := !state.hasOpenFlag
          notifyManagers := !state.hasOpenFlag
          createCandidateWarning :=
            e.policy.outcome = integrityOutcomeFlagAndWarn && !state.candidateWarningCreated
          suspend := e.policy.outcome = integrityOutcomeFlagAndSuspend }
      else .ok decision

/-! ## The stored evaluation -/

structure PendingRow (ι : Type) where
  signalID : ι
  evidenceID : ι
  sequence : Int
  durationMilliseconds : Int
  source : Option FocusLossSource
  missingBefore : Int
  receivedAt : Int
  deriving DecidableEq, Repr

structure EvaluationRow (ι : Type) where
  acceptedSequence : Int
  lastDuration : Option Int
  lastSource : Option FocusLossSource
  unresolvedMissingCount : Int
  retainedEvidenceCount : Nat
  overflowCount : Int
  overflowFirstReceivedAt : Option Int
  overflowLastReceivedAt : Option Int
  overflowMaximumDuration : Option Int
  diagnosticCount : Int
  flagged : Bool
  warningCreated : Bool
  pending : List (PendingRow ι)
  evidence : List (PendingRow ι)
  deriving DecidableEq, Repr

def EvaluationRow.initial : EvaluationRow ι :=
  ⟨0, none, none, 0, 0, 0, none, none, none, 0, false, false, [], []⟩

/-- A report that passed `validateFocusLossSignal`, with the database time of its transaction and
the answers of the access checks. -/
structure Report (ι : Type) where
  signalID : ι
  evidenceID : ι
  generation : Int
  sequence : Int
  durationMilliseconds : Int
  source : Option FocusLossSource
  databaseNow : Int
  active : Bool
  replayAccess : Bool
  generation_pos : 1 ≤ generation
  sequence_pos : 1 ≤ sequence
  sequence_le : sequence ≤ maximumInt64
  duration_pos : 1 ≤ durationMilliseconds
  duration_le : durationMilliseconds ≤ focusLossMaximumDurationMilliseconds
  databaseNow_ne : databaseNow ≠ 0

def Report.signal (r : Report ι) : FocusLossSignal ι :=
  ⟨r.signalID, r.generation, r.sequence, r.durationMilliseconds, r.source, r.databaseNow⟩

def Report.row (r : Report ι) (missingBefore : Int) : PendingRow ι :=
  ⟨r.signalID, r.evidenceID, r.sequence, r.durationMilliseconds, r.source, missingBefore, r.databaseNow⟩

inductive RecordError where
  | invalidSignal | invalidEvaluation | evaluationState (error : DecideError)
  | pendingSignal | inactive | sequenceConflict | replayRefused
  deriving DecidableEq, Repr

def PendingRow.le (a b : PendingRow ι) : Bool :=
  a.receivedAt < b.receivedAt || (a.receivedAt = b.receivedAt && a.sequence ≤ b.sequence)

/-- The pending rows after expiry of the old ones and insertion of a signal in the window. -/
def maintainWindow (e : Evaluation ι) (r : Report ι) (pending : List (PendingRow ι)) :
    List (PendingRow ι) :=
  let kept := pending.filter fun row => !(row.receivedAt < e.windowStartsAt)
  if e.retainInWindow then kept ++ [r.row 0] else kept

/-- `decideFocusLoss`, with the pending rows it leaves. -/
def decideFocusLoss (policy : FocusLossPolicy) (state : EvaluationRow ι) (r : Report ι) :
    Except RecordError (Decision × List (PendingRow ι)) :=
  if !r.signal.validate then .error .invalidSignal
  else
    match newFocusLossEvaluation policy r.signal with
    | none => .error .invalidEvaluation
    | some evaluation =>
      let pending := maintainWindow evaluation r state.pending
      match evaluation.decide ⟨state.acceptedSequence, pending.length, state.unresolvedMissingCount,
          state.diagnosticCount, state.flagged, state.warningCreated⟩ with
      | .error e => .error (.evaluationState e)
      | .ok decision =>
        if evaluation.retainInWindow then
          if (pending.filter fun row => row.sequence = r.sequence).length ≠ 1 then
            .error .pendingSignal
          else
            .ok (decision, pending.map fun row =>
              if row.sequence = r.sequence then { row with missingBefore := decision.missingBefore }
              else row)
        else .ok (decision, pending)

/-- One turn of the loop of `consumeFocusLossBucket`. -/
def consumeEpisode (state : EvaluationRow ι) (episode : PendingRow ι) : EvaluationRow ι :=
  if state.retainedEvidenceCount < focusLossMaximumEvidenceEpisodes then
    { state with
      evidence := state.evidence ++ [episode]
      retainedEvidenceCount := state.retainedEvidenceCount + 1 }
  else
    { state with
      overflowCount :=
        if state.overflowCount < maximumInt64 then state.overflowCount + 1 else state.overflowCount
      overflowFirstReceivedAt := state.overflowFirstReceivedAt.getD episode.receivedAt
      overflowLastReceivedAt := some episode.receivedAt
      overflowMaximumDuration :=
        match state.overflowMaximumDuration with
        | none => some episode.durationMilliseconds
        | some longest =>
          if episode.durationMilliseconds > longest then some episode.durationMilliseconds
          else some longest }

def consumeFocusLossBucket (state : EvaluationRow ι) : EvaluationRow ι :=
  { (state.pending.mergeSort PendingRow.le).foldl consumeEpisode state with pending := [] }

/-- `applyFocusLossDecision` and `retainFocusLossOutcome` on the evaluation. -/
def applyFocusLossDecision (state : EvaluationRow ι) (r : Report ι) (decision : Decision) :
    EvaluationRow ι :=
  let state := { state with flagged := state.flagged || decision.createFlag }
  let state := if decision.consumeWindow then consumeFocusLossBucket state else state
  { state with
    acceptedSequence := r.sequence
    lastDuration := some r.durationMilliseconds
    lastSource := r.source
    unresolvedMissingCount := decision.unresolvedMissingCount
    diagnosticCount := decision.diagnosticCount
    warningCreated := state.warningCreated || decision.createCandidateWarning }

inductive Answer where
  | replayed
  | recorded (decision : Decision)

/-- `recordFocusLoss`, on the evaluation of the report's generation. -/
def recordFocusLoss (policy : FocusLossPolicy) (state : EvaluationRow ι) (r : Report ι) :
    Except RecordError (Answer × EvaluationRow ι) :=
  if r.sequence ≤ state.acceptedSequence then
    if r.sequence ≠ state.acceptedSequence || state.lastDuration ≠ some r.durationMilliseconds ||
        state.lastSource ≠ r.source then .error .sequenceConflict
    else if !r.replayAccess then .error .replayRefused
    else .ok (.replayed, state)
  else if !r.active then .error .inactive
  else
    match decideFocusLoss policy state r with
    | .error e => .error e
    | .ok (decision, pending) =>
      .ok (.recorded decision, applyFocusLossDecision { state with pending := pending } r decision)

/-! ## Runs -/

abbrev Evaluations (ι : Type) : Type := Int → EvaluationRow ι

structure Accepted (ι : Type) where
  report : Report ι
  decision : Decision

/-- The Attempt after a run of reports, and the signals accepted in it, oldest first. A report that
is refused or replayed changes nothing. -/
def runReports (policy : FocusLossPolicy) (attempt : Evaluations ι) :
    List (Report ι) → Evaluations ι × List (Accepted ι)
  | [] => (attempt, [])
  | r :: rest =>
    match recordFocusLoss policy (attempt r.generation) r with
    | .ok (.recorded decision, next) =>
      let (final, accepted) := runReports policy (Function.update attempt r.generation next) rest
      (final, ⟨r, decision⟩ :: accepted)
    | _ => runReports policy attempt rest

end Proctor.FocusLoss
