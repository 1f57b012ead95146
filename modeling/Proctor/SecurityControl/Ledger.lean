import Proctor.ExamPolicy.NativePolicy
import Proctor.Recent.Basic

/-! # The ledger of processed security controls

Model of `sqlstore/security_control_ledger.go`. The ledger keeps the receipts of the last controls
it processed and the sequence of the last one. Its meaning is the history of all receipts ever
recorded: what it keeps is the recent end of that history, and its answer to a control is decided
by the history alone. -/
namespace Proctor.SecurityControl

open Json Proctor.CanonicalJson Proctor.ExamPolicy List

/-- `ErrSecurityControlInvalid` and `ErrSecurityControlConflict`. -/
inductive ControlError where
  | invalid | conflict
  deriving DecidableEq, Repr

def securityControlReceiptLimit : Nat := 128

def securityControlReceiptMaxBytes : Nat := 2048

def securityControlSafeInt (value : Int) : Bool := 0 ≤ value && value ≤ 9007199254740991

structure SecurityControlReceipt where
  sequence : Int
  digest : Text
  result : Text
  resetIDs : Option (List Text)
  rejections : Option (List (Int × Int))
  deriving DecidableEq, Repr

def controlResults : List Text :=
  ["accepted", "reset_required", "reset_conflict"]

def rejectionsDocument : Option (List (Int × Int)) → Doc
  | none => .null
  | some rejections => .arr (rejections.map fun r => .arr [.int r.1, .int r.2])

def SecurityControlReceipt.document (r : SecurityControlReceipt) : Doc :=
  .obj [("sequence", .int r.sequence), ("digest", .str r.digest),
    ("result", .str r.result), ("resets", idsDocument r.resetIDs),
    ("rejections", rejectionsDocument r.rejections)]

/-- `canonicalSecurityControlDocument`, on the document that `json.Marshal` writes. -/
def canonicalSecurityControlDocument (value : Doc) : Except CanonicalJson.Error Bytes :=
  canonicalize value.marshal value.marshal.length

def validResetIDs (prior : List Text) : List Text → Bool
  | [] => true
  | id :: rest => isValidAgreementID id && !prior.contains id && validResetIDs (prior ++ [id]) rest

def validRejections (prior : List (Int × Int)) : List (Int × Int) → Bool
  | [] => true
  | r :: rest =>
    !(r.1 < 0 || r.1 > 49 || r.2 < 0 || r.2 > 1) && !prior.any (fun p => p.1 = r.1) &&
      validRejections (prior ++ [r]) rest

def SecurityControlReceipt.validate (r : SecurityControlReceipt) : Except ControlError Unit :=
  match r.resetIDs, r.rejections with
  | some resetIDs, some rejections =>
    if r.sequence ≤ 0 || !securityControlSafeInt r.sequence || !isValidSHA256Fingerprint r.digest ||
        !controlResults.contains r.result || resetIDs.length > 11 || rejections.length > 50 then
      .error .invalid
    else if !validResetIDs [] resetIDs || !validRejections [] rejections then .error .invalid
    else
      match canonicalSecurityControlDocument r.document with
      | .ok raw => if raw.length > securityControlReceiptMaxBytes then .error .invalid else .ok ()
      | .error _ => .error .invalid
  | _, _ => .error .invalid

structure NativeControlLedger where
  processedSequence : Int
  processedDigest : Option Text
  receipts : Option (List SecurityControlReceipt)
  deriving DecidableEq, Repr

def newNativeControlLedger : NativeControlLedger := ⟨0, none, some []⟩

def validReceipts (processed previous : Int) : List SecurityControlReceipt → Bool
  | [] => true
  | r :: rest =>
    r.validate.isOk && !(r.sequence ≤ previous) && !(r.sequence > processed) &&
      validReceipts processed r.sequence rest

def NativeControlLedger.validate (l : NativeControlLedger) : Except ControlError Unit :=
  match l.receipts with
  | none => .error .invalid
  | some receipts =>
    if !securityControlSafeInt l.processedSequence ||
        receipts.length > securityControlReceiptLimit then .error .invalid
    else
      match l.processedDigest with
      | none => if l.processedSequence = 0 && receipts.isEmpty then .ok () else .error .invalid
      | some digest =>
        if l.processedSequence = 0 || !isValidSHA256Fingerprint digest then .error .invalid
        else if !validReceipts l.processedSequence 0 receipts then .error .invalid
        else
          match receipts.getLast? with
          | none => .error .invalid
          | some last =>
            if last.sequence ≠ l.processedSequence || last.digest ≠ digest then .error .invalid
            else .ok ()

/-- A retained receipt with `true`, no receipt with `true` for a stale sequence, or no receipt with
`false` for a sequence not yet processed. -/
def NativeControlLedger.lookup (l : NativeControlLedger) (sequence : Int) (digest : Text) :
    Except ControlError (Option SecurityControlReceipt × Bool) :=
  if !l.validate.isOk || sequence ≤ 0 || !securityControlSafeInt sequence ||
      !isValidSHA256Fingerprint digest then .error .invalid
  else
    match (l.receipts.getD []).find? fun r => r.sequence = sequence with
    | some r => if r.digest ≠ digest then .error .conflict else .ok (some r, true)
    | none => .ok (none, sequence ≤ l.processedSequence)

def NativeControlLedger.record (l : NativeControlLedger) (receipt : SecurityControlReceipt) :
    Except ControlError NativeControlLedger :=
  if !l.validate.isOk || !receipt.validate.isOk || receipt.sequence ≤ l.processedSequence then
    .error .invalid
  else
    let receipts := l.receipts.getD []
    let start := if receipts.length = securityControlReceiptLimit then 1 else 0
    .ok ⟨receipt.sequence, some receipt.digest, some (receipts.drop start ++ [receipt])⟩

/-! ## Runs -/

/-- A structurally valid control: only such a control reaches the ledger. -/
structure IncomingControl where
  sequence : Int
  digest : Text
  positive : 0 < sequence
  safe : securityControlSafeInt sequence = true
  fingerprint : isValidSHA256Fingerprint digest = true

structure ControlOutcome where
  result : Text
  resetIDs : Option (List Text)
  rejections : Option (List (Int × Int))

def IncomingControl.receipt (c : IncomingControl) (outcome : ControlOutcome) :
    SecurityControlReceipt :=
  ⟨c.sequence, c.digest, outcome.result, outcome.resetIDs, outcome.rejections⟩

inductive ControlAnswer where
  | replayed (receipt : SecurityControlReceipt)
  | stale
  | recorded (receipt : SecurityControlReceipt)
  | refused (error : ControlError)
  deriving DecidableEq, Repr

/-- The part of `processSecurityCoverage` that the ledger decides: a control is interpreted and
recorded only if its lookup finds neither a receipt nor a processed sequence. -/
def NativeControlLedger.process (l : NativeControlLedger) (c : IncomingControl)
    (outcome : ControlOutcome) : ControlAnswer × NativeControlLedger :=
  match l.lookup c.sequence c.digest with
  | .error e => (.refused e, l)
  | .ok (some r, _) => (.replayed r, l)
  | .ok (none, true) => (.stale, l)
  | .ok (none, false) =>
    match l.record (c.receipt outcome) with
    | .error e => (.refused e, l)
    | .ok next => (.recorded (c.receipt outcome), next)

def ControlAnswer.recorded? : ControlAnswer → Option SecurityControlReceipt
  | .recorded receipt => some receipt
  | _ => none

def runControls (l : NativeControlLedger) :
    List (IncomingControl × ControlOutcome) → NativeControlLedger × List SecurityControlReceipt
  | [] => (l, [])
  | (c, outcome) :: rest =>
    let (answer, next) := l.process c outcome
    let (final, recorded) := runControls next rest
    (final, answer.recorded?.toList ++ recorded)

/-! ## What the ledger keeps -/

variable {r : SecurityControlReceipt}

theorem SecurityControlReceipt.fields_of_validate (h : r.validate.isOk) :
    0 < r.sequence ∧ securityControlSafeInt r.sequence ∧
      isValidSHA256Fingerprint r.digest := by
  unfold SecurityControlReceipt.validate at h
  split at h
  · split at h
    · cases h
    rename_i hFields
    simp only [Bool.or_eq_true, decide_eq_true_eq, Bool.not_eq_true', not_or, not_le,
      Bool.not_eq_false] at hFields
    obtain ⟨⟨⟨⟨⟨hPositive, hSafe⟩, hDigest⟩, -⟩, -⟩, -⟩ := hFields
    exact ⟨hPositive, hSafe, hDigest⟩
  · cases h

theorem validReceipts_iff {processed previous : Int} {receipts : List SecurityControlReceipt} :
    validReceipts processed previous receipts ↔
      (∀ r ∈ receipts, r.validate.isOk ∧ previous < r.sequence ∧ r.sequence ≤ processed) ∧
        receipts.Pairwise fun a b => a.sequence < b.sequence := by
  induction receipts generalizing previous with
  | nil => simp [validReceipts]
  | cons r rest ih =>
    simp only [validReceipts, Bool.and_eq_true, Bool.not_eq_true', decide_eq_false_iff_not, not_le,
      not_lt, gt_iff_lt, ih, forall_mem_cons, pairwise_cons]
    constructor
    · rintro ⟨⟨⟨hValid, hPrev⟩, hProcessed⟩, hRest, hOrder⟩
      exact ⟨⟨⟨hValid, hPrev, hProcessed⟩, fun b hb =>
          ⟨(hRest b hb).1, hPrev.trans (hRest b hb).2.1, (hRest b hb).2.2⟩⟩,
        fun b hb => (hRest b hb).2.1, hOrder⟩
    · rintro ⟨⟨⟨hValid, hPrev, hProcessed⟩, hRest⟩, hHead, hOrder⟩
      exact ⟨⟨⟨hValid, hPrev⟩, hProcessed⟩,
        fun b hb => ⟨(hRest b hb).1, hHead b hb, (hRest b hb).2.2⟩, hOrder⟩

structure ReceiptHistory (history : List SecurityControlReceipt) : Prop where
  valid : ∀ r ∈ history, r.validate.isOk = true
  increasing : history.Pairwise fun a b => a.sequence < b.sequence

/-- The ledger holds the recent end of a history and points at its last receipt. -/
structure Keeps (l : NativeControlLedger) (history : List SecurityControlReceipt) : Prop where
  recorded : ReceiptHistory history
  receipts : l.receipts = some (history.rtake securityControlReceiptLimit)
  sequence : l.processedSequence = (history.getLast?.map (·.sequence)).getD 0
  digest : l.processedDigest = history.getLast?.map (·.digest)

theorem keeps_new : Keeps newNativeControlLedger [] where
  recorded := ⟨by simp, List.Pairwise.nil⟩
  receipts := rfl
  sequence := rfl
  digest := rfl

variable {history : List SecurityControlReceipt}

theorem getLast?_rtake : (history.rtake securityControlReceiptLimit).getLast? = history.getLast? := by
  rw [List.rtake, getLast?_drop]
  split
  · rename_i h
    have hNil : history.length = 0 := by
      unfold securityControlReceiptLimit at h
      omega
    rw [length_eq_zero_iff.mp hNil]
    rfl
  · rfl

theorem ReceiptHistory.le_last (h : ReceiptHistory history)
    {last : SecurityControlReceipt} (hLast : history.getLast? = some last) :
    ∀ r ∈ history, r.sequence ≤ last.sequence := by
  obtain ⟨front, rfl⟩ := getLast?_eq_some_iff.mp hLast
  exact forall_mem_append.mpr ⟨fun r hr => ((pairwise_append.mp h.increasing).2.2 r hr last (by simp)).le,
    forall_mem_singleton.mpr le_rfl⟩

theorem ReceiptHistory.recent (h : ReceiptHistory history) :
    ReceiptHistory (history.rtake securityControlReceiptLimit) where
  valid r hr := h.valid r ((Recent.rtake_suffix history _).subset hr)
  increasing := h.increasing.sublist (Recent.rtake_suffix history _).sublist

variable {l : NativeControlLedger}

section

variable (h : Keeps l history)
include h

theorem Keeps.validate : l.validate = .ok () := by
  have hLen : ¬(history.rtake securityControlReceiptLimit).length >
      securityControlReceiptLimit := by
    rw [Recent.length_rtake]
    omega
  cases hLast : history.getLast? with
  | none =>
    have hNil : history = [] := getLast?_eq_none_iff.mp hLast
    subst hNil
    simp [NativeControlLedger.validate, h.receipts, h.sequence, h.digest, securityControlSafeInt]
  | some last =>
    have hMem := mem_of_getLast? hLast
    obtain ⟨hPositive, hSafe, hDigest⟩ :=
      SecurityControlReceipt.fields_of_validate (h.recorded.valid last hMem)
    have hReceipts : validReceipts last.sequence 0
        (history.rtake securityControlReceiptLimit) := by
      refine validReceipts_iff.mpr ⟨fun r hr => ?_, h.recorded.recent.increasing⟩
      have hr' := (Recent.rtake_suffix history _).subset hr
      exact ⟨h.recorded.valid r hr',
        (SecurityControlReceipt.fields_of_validate (h.recorded.valid r hr')).1,
        h.recorded.le_last hLast r hr'⟩
    simp only [NativeControlLedger.validate, h.receipts, h.sequence, h.digest, hLast,
      getLast?_rtake, Option.map_some, Option.getD_some, hSafe, hDigest, hReceipts, hLen]
    simp [hPositive.ne']

theorem Keeps.le_processed : ∀ r ∈ history, r.sequence ≤ l.processedSequence := by
  intro r hr
  have hLast := getLast?_eq_some_getLast (ne_nil_of_mem hr)
  rw [h.sequence, hLast]
  exact h.recorded.le_last hLast r hr

/-! ## The operations on a kept history -/

variable (c : IncomingControl)
include c

theorem Keeps.lookup_eq :
    l.lookup c.sequence c.digest =
      match (history.rtake securityControlReceiptLimit).find? fun r => r.sequence = c.sequence with
      | some r => if r.digest ≠ c.digest then .error .conflict else .ok (some r, true)
      | none => .ok (none, c.sequence ≤ l.processedSequence) := by
  have hGuard : ¬c.sequence ≤ 0 := not_le.mpr c.positive
  simp [NativeControlLedger.lookup, h.validate, hGuard, c.safe, c.fingerprint, h.receipts,
    Except.isOk, Except.toBool]

theorem Keeps.lookup_retained
    (hr : r ∈ history.rtake securityControlReceiptLimit) (hSeq : r.sequence = c.sequence) :
    l.lookup c.sequence c.digest =
      if r.digest = c.digest then .ok (some r, true) else .error .conflict := by
  have hFind : ((history.rtake securityControlReceiptLimit).find? fun r =>
      r.sequence = c.sequence) = some r := by
    refine find?_eq_some_iff_append.mpr ⟨by simpa using hSeq, ?_⟩
    obtain ⟨front, back, hSplit⟩ := append_of_mem hr
    refine ⟨front, back, hSplit, fun a ha => ?_⟩
    have hOrder := h.recorded.recent.increasing
    rw [hSplit] at hOrder
    have hLess := (pairwise_append.mp hOrder).2.2 a ha r (by simp)
    simp only [Bool.not_eq_true', decide_eq_false_iff_not]
    omega
  rw [h.lookup_eq, hFind]
  simp only [ne_eq, ite_not]

theorem Keeps.lookup_other
    (hOther : ∀ r ∈ history.rtake securityControlReceiptLimit, r.sequence ≠ c.sequence) :
    l.lookup c.sequence c.digest = .ok (none, decide (c.sequence ≤ l.processedSequence)) := by
  have hFind : ((history.rtake securityControlReceiptLimit).find? fun r =>
      r.sequence = c.sequence) = none :=
    find?_eq_none.mpr fun r hr => by simpa using hOther r hr
  rw [h.lookup_eq, hFind]

end

theorem Keeps.record {l next : NativeControlLedger}
    (h : Keeps l history) (hRec : l.record r = .ok next) :
    Keeps next (history ++ [r]) ∧ l.processedSequence < r.sequence ∧
      next.processedSequence = r.sequence := by
  unfold NativeControlLedger.record at hRec
  split at hRec
  · cases hRec
  rename_i hGuard
  simp only [Bool.or_eq_true, Bool.not_eq_true', decide_eq_true_eq, not_or, Bool.not_eq_false,
    not_le] at hGuard
  obtain ⟨⟨-, hValid⟩, hNew⟩ := hGuard
  cases hRec
  refine ⟨⟨⟨?_, ?_⟩, ?_, by simp, by simp⟩, hNew, rfl⟩
  · exact forall_mem_append.mpr ⟨h.recorded.valid, forall_mem_singleton.mpr hValid⟩
  · refine pairwise_append.mpr ⟨h.recorded.increasing, pairwise_singleton _ _,
      fun a ha b hb => ?_⟩
    rw [mem_singleton.mp hb]
    exact (h.le_processed a ha).trans_lt hNew
  · simp only [h.receipts, Option.getD_some]
    exact congrArg some (Recent.evict_append (by decide) r)

/-! ## Steps and runs -/

theorem Keeps.process (h : Keeps l history) (c : IncomingControl) (outcome : ControlOutcome) :
    ((l.process c outcome).1.recorded? = none ∧ (l.process c outcome).2 = l) ∨
      ((l.process c outcome).1 = .recorded (c.receipt outcome) ∧
        Keeps (l.process c outcome).2 (history ++ [c.receipt outcome]) ∧
        l.processedSequence < c.sequence ∧ (l.process c outcome).2.processedSequence = c.sequence) := by
  unfold NativeControlLedger.process
  split
  · exact .inl ⟨rfl, rfl⟩
  · exact .inl ⟨rfl, rfl⟩
  · exact .inl ⟨rfl, rfl⟩
  · split
    · exact .inl ⟨rfl, rfl⟩
    · rename_i hRec
      exact .inr ⟨rfl, h.record hRec⟩

theorem Keeps.run (h : Keeps l history) (controls : List (IncomingControl × ControlOutcome)) :
    Keeps (runControls l controls).1 (history ++ (runControls l controls).2) := by
  induction controls generalizing l history with
  | nil => simpa [runControls] using h
  | cons control rest ih =>
    obtain ⟨c, outcome⟩ := control
    rcases h.process c outcome with ⟨hAns, hLedger⟩ | ⟨hAns, hKeeps, -, -⟩
    · simp only [runControls, hAns, hLedger, Option.toList_none, nil_append]
      exact ih h
    have hRest := ih hKeeps
    simp only [runControls, hAns, ControlAnswer.recorded?, Option.toList_some]
    rwa [append_assoc] at hRest

theorem Keeps.process_processed (h : Keeps l history) (c : IncomingControl) (outcome : ControlOutcome)
    (hProcessed : c.sequence ≤ l.processedSequence) :
    (l.process c outcome).1.recorded? = none ∧ (l.process c outcome).2 = l := by
  rcases h.process c outcome with hSame | ⟨-, -, hNew, -⟩
  · exact hSame
  · omega

end Proctor.SecurityControl
