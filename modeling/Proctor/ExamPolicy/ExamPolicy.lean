import Proctor.ExamPolicy.NativePolicy

/-! # The frozen exam policy set and its codec

Model of `model/exam_policy.go`. Durations are nanoseconds, as in `time.Duration`. -/
namespace Proctor.ExamPolicy

open Json Proctor.CanonicalJson

def examPolicySchemaVersion : Int := 1

def integrityOutcomeFlag : Text := "flag"
def integrityOutcomeFlagAndWarn : Text := "flag_and_warn"
def integrityOutcomeFlagAndSuspend : Text := "flag_and_suspend"

def millisecond : Int := 1000000
def second : Int := 1000 * millisecond
def minute : Int := 60 * second
def hour : Int := 60 * minute

structure ConnectionLossPolicy where
  outcome : Text
  deriving DecidableEq, Repr

structure FocusLossPolicy where
  enabled : Bool
  minimumDuration : Int
  incidentCount : Int
  window : Int
  outcome : Text
  deriving DecidableEq, Repr

structure ExamPolicySet where
  schemaVersion : Int
  connectionLoss : ConnectionLossPolicy
  focusLoss : FocusLossPolicy
  native : NativeSecurityPolicy
  deriving DecidableEq, Repr

inductive PolicyError where
  | nativePolicy
  | canonical (e : CanonicalJson.Error)
  | invalidModel (modelName reason : String)
  deriving DecidableEq, Repr

def defaultNativeFamily (id : Text) : NativeFamilyFields :=
  let f : NativeFamilyFields := { id := id, mode := nativeModeDisabled }
  if id = "process_application" then { f with allowedApplicationIDs := some [] }
  else if id = "clipboard" then { f with strategy := "disabled" }
  else if id = "printing" then
    { f with candidatePrintCommands := "not_applied", monitoredSpooler := "not_required" }
  else if id = "removable_storage" then
    { f with enabledSubCapabilities := some [], allowedStorageFunctionClassIDs := some [] }
  else if id = "virtualization" then { f with rule := "not_applied" }
  else if id = "network_configuration" then
    { f with enabledSubCapabilities := some [], allowedManagedProfileIDs := some [],
             allowedAdapterClassIDs := some [], allowedTunnelClassIDs := some [] }
  else if id = "camera" || id = "microphone" then
    { f with concurrentUseCheck := "not_required" }
  else f

def defaultNativeSecurityPolicy : NativeSecurityPolicy where
  registryDigest := nativeRegistryDigest
  baselineID := "desktop_candidate"
  families := some (nativeFamilies.map defaultNativeFamily)

def defaultExamPolicySet : ExamPolicySet where
  schemaVersion := examPolicySchemaVersion
  native := defaultNativeSecurityPolicy
  connectionLoss := { outcome := integrityOutcomeFlagAndSuspend }
  focusLoss :=
    { enabled := true, minimumDuration := 2 * second, incidentCount := 3, window := 5 * minute
      outcome := integrityOutcomeFlagAndWarn }

def ExamPolicySet.validate (p : ExamPolicySet) : Except PolicyError Unit :=
  let invalid := fun reason => Except.error (.invalidModel "exam_policy_set" reason)
  if !p.native.validate then .error .nativePolicy
  else if p.focusLoss.minimumDuration.tmod millisecond ≠ 0 ∨
      p.focusLoss.window.tmod millisecond ≠ 0 then
    invalid "focus loss durations require whole milliseconds"
  else if p.schemaVersion ≠ examPolicySchemaVersion then
    invalid ("unsupported exam policy schema version " ++ toString p.schemaVersion)
  else if p.connectionLoss.outcome ≠ integrityOutcomeFlagAndSuspend then
    invalid "connection loss must flag and suspend"
  else if p.focusLoss.minimumDuration < 500 * millisecond ∨
      p.focusLoss.minimumDuration > 5 * minute then
    invalid "focus loss minimum duration is out of bounds"
  else if p.focusLoss.incidentCount < 1 ∨ p.focusLoss.incidentCount > 100 then
    invalid "focus loss incident count is out of bounds"
  else if p.focusLoss.window < 10 * second ∨ p.focusLoss.window > 4 * hour ∨
      p.focusLoss.window < p.focusLoss.minimumDuration then
    invalid "focus loss window is out of bounds"
  else if p.focusLoss.outcome = integrityOutcomeFlag ∨
      p.focusLoss.outcome = integrityOutcomeFlagAndWarn ∨
      p.focusLoss.outcome = integrityOutcomeFlagAndSuspend then .ok ()
  else invalid "focus loss outcome is invalid"

def ConnectionLossPolicy.document (p : ConnectionLossPolicy) : Doc :=
  .obj [("outcome", .str p.outcome)]

def FocusLossPolicy.document (p : FocusLossPolicy) : Doc :=
  .obj [("enabled", .bool p.enabled),
    ("minimum_duration_milliseconds", .int (p.minimumDuration.tdiv millisecond)),
    ("incident_count", .int p.incidentCount),
    ("window_milliseconds", .int (p.window.tdiv millisecond)),
    ("outcome", .str p.outcome)]

/-- What `json.Marshal` writes for the `examPolicyWire` of a policy. -/
def ExamPolicySet.document (p : ExamPolicySet) : Doc :=
  .obj [("native", p.native.document), ("connection_loss", p.connectionLoss.document),
    ("focus_loss", p.focusLoss.document)]

def encodeExamPolicySet (policy : ExamPolicySet) : Except PolicyError Bytes := do
  policy.validate
  let data ← (encodeCanonicalExamDocument policy.document).mapError .canonical
  if examPolicySetMaxBytes < data.length then
    .error (.invalidModel "exam_policy" "exam policy document is too large")
  else .ok data

structure ConnectionWire where
  outcome : Option Text := none

structure FocusWire where
  enabled : Option Bool := none
  minimumDurationMilliseconds : Option Int := none
  incidentCount : Option Int := none
  windowMilliseconds : Option Int := none
  outcome : Option Text := none

structure PolicyWire where
  native : Option NativeSecurityPolicy := none
  connectionLoss : Option ConnectionWire := none
  focusLoss : Option FocusWire := none

def connectionFields : List (StructField ConnectionWire) :=
  [structField "outcome" (unmarshalPointer [] unmarshalString) (·.outcome) fun v s => { s with outcome := v }]

def focusFields : List (StructField FocusWire) :=
  [structField "enabled" (unmarshalPointer false unmarshalBool) (·.enabled) fun v s => { s with enabled := v },
    structField "minimum_duration_milliseconds" (unmarshalPointer 0 unmarshalInt) (·.minimumDurationMilliseconds)
      fun v s => { s with minimumDurationMilliseconds := v },
    structField "incident_count" (unmarshalPointer 0 unmarshalInt) (·.incidentCount)
      fun v s => { s with incidentCount := v },
    structField "window_milliseconds" (unmarshalPointer 0 unmarshalInt) (·.windowMilliseconds)
      fun v s => { s with windowMilliseconds := v },
    structField "outcome" (unmarshalPointer [] unmarshalString) (·.outcome) fun v s => { s with outcome := v }]

def policyFields : List (StructField PolicyWire) :=
  [structField "native"
      (unmarshalPointer {} fun doc _ => NativeSecurityPolicy.unmarshalJSON (utf8 doc.text))
      (·.native) fun v s => { s with native := v },
    structField "connection_loss" (unmarshalPointer {} (unmarshalStruct connectionFields))
      (·.connectionLoss) fun v s => { s with connectionLoss := v },
    structField "focus_loss" (unmarshalPointer {} (unmarshalStruct focusFields)) (·.focusLoss)
      fun v s => { s with focusLoss := v }]

/-- `requireJSONEOF`, on the characters that the decoder has not read. -/
def requireJSONEOF (rest : List Char) : Except PolicyError Unit :=
  if rest.all isWhitespace then .ok ()
  else match parseValue (2 * rest.length + 1) (skipWhitespace rest) with
    | some _ => .error (.invalidModel "exam_policy" "exam policy has trailing JSON")
    | none => .error (.invalidModel "exam_policy" "decode exam policy trailing input")

def PolicyWire.complete (wire : PolicyWire) : Option (NativeSecurityPolicy × Text × FocusLossPolicy) := do
  let native ← wire.native
  let connection ← wire.connectionLoss
  let connectionOutcome ← connection.outcome
  let focus ← wire.focusLoss
  let enabled ← focus.enabled
  let minimumDuration ← focus.minimumDurationMilliseconds
  let incidentCount ← focus.incidentCount
  let window ← focus.windowMilliseconds
  let outcome ← focus.outcome
  return (native, connectionOutcome, ⟨enabled, minimumDuration, incidentCount, window, outcome⟩)

def policyOf (native : NativeSecurityPolicy) (connectionOutcome : Text) (focus : FocusLossPolicy) :
    ExamPolicySet where
  schemaVersion := examPolicySchemaVersion
  native := native
  connectionLoss := ⟨connectionOutcome⟩
  focusLoss := { focus with minimumDuration := focus.minimumDuration * millisecond
                            window := focus.window * millisecond }

def PolicyWire.policy (wire : PolicyWire) : Except PolicyError ExamPolicySet :=
  match wire.complete with
  | none => .error (.invalidModel "exam_policy" "exam policy document is incomplete")
  | some (native, connectionOutcome, focus) =>
    -- the durations are still milliseconds here, so the products of `policyOf` cannot overflow
    if focus.minimumDuration < 500 ∨ focus.minimumDuration > 300000 ∨
        focus.window < 10000 ∨ focus.window > 14400000 then
      .error (.invalidModel "exam_policy" "exam policy duration is out of bounds")
    else
      (policyOf native connectionOutcome focus).validate.map fun _ =>
        policyOf native connectionOutcome focus

def decodeExamPolicySet (data : Bytes) : Except PolicyError ExamPolicySet :=
  if data.length = 0 ∨ examPolicySetMaxBytes < data.length then
    .error (.invalidModel "exam_policy" "exam policy document size is invalid")
  else match validateExamDocumentJSON data with
    | .error e => .error (.canonical e)
    | .ok () =>
      match decode data with
      | none => .error (.invalidModel "exam_policy" "decode exam policy")
      | some (doc, rest) =>
        match unmarshalStruct policyFields doc {} with
        | none => .error (.invalidModel "exam_policy" "decode exam policy")
        | some wire => do
          requireJSONEOF rest
          wire.policy

end Proctor.ExamPolicy
