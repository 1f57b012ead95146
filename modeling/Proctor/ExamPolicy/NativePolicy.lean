import Proctor.CanonicalJson.Accepts
import Proctor.Json.Parse
import Proctor.Json.Marshal
import Proctor.Json.Codec
import Proctor.Values.Basic

/-! # The native security policy and its codec

Model of `model/native_policy.go`. A slice is `none` when it is nil. A custom
`UnmarshalJSON` receives the spelling of its value; the model hands it the compact spelling, on
which every one of its checks has the same answer. -/
namespace Proctor.ExamPolicy

open Json Proctor.CanonicalJson

def examPolicySetMaxBytes : Nat := 64 * 1024

def nativeRegistryDigest : Text :=
  "sha256:79faa1141236b073dff2ff802ce67abce3082417a7a4fa2954615e4226acd1e0"

def nativeModeDisabled : Text := "disabled"
def nativeModeObserve : Text := "observe"
def nativeModeEnforce : Text := "enforce"

/-- `NativeMode.IsValid`. -/
def isValidMode (mode : Text) : Bool :=
  mode = nativeModeDisabled || mode = nativeModeObserve || mode = nativeModeEnforce

def nativeFamilies : List Text :=
  ["process_application", "interactive_session", "clipboard",
    "printing", "removable_storage", "virtualization",
    "network_configuration", "camera", "microphone", "external_capture"]

structure NativeFamilyFields where
  id : Text := []
  mode : Text := []
  allowedApplicationIDs : Option (List Text) := none
  strategy : Text := []
  observeOSClipboardChanges : Bool := false
  candidatePrintCommands : Text := []
  monitoredSpooler : Text := []
  enabledSubCapabilities : Option (List Text) := none
  allowedStorageFunctionClassIDs : Option (List Text) := none
  rule : Text := []
  allowedManagedProfileIDs : Option (List Text) := none
  allowedAdapterClassIDs : Option (List Text) := none
  allowedTunnelClassIDs : Option (List Text) := none
  requireReady : Bool := false
  concurrentUseCheck : Text := []
  deriving DecidableEq, Repr

def isAlphanumeric (c : Char) : Bool :=
  ('a' ≤ c && c ≤ 'z') || ('A' ≤ c && c ≤ 'Z') || ('0' ≤ c && c ≤ '9')

def isValidAgreementID (value : Text) : Bool :=
  match value with
  | [] => false
  | c :: rest => size value ≤ 128 && isAlphanumeric c &&
      rest.all fun c => isAlphanumeric c || c == '.' || c == '_' || c == ':' || c == '-'

def increasingIDs (previous : Text) : List Text → Bool
  | [] => true
  | id :: ids => isValidAgreementID id && utf8 previous < utf8 id && increasingIDs id ids

/-- Whether `validateNativePolicyIDs` returns nil. -/
def validateNativePolicyIDs : Option (List Text) → Bool
  | none => false
  | some ids => ids.length ≤ 256 && increasingIDs [] ids

/-- Whether `validateNativePolicySelection` returns nil. -/
def validateNativePolicySelection (ids : Option (List Text)) (allowed : List Text)
    (disabled : Bool) : Bool :=
  match ids with
  | none => false
  | some ids => ids.length ≤ allowed.length && (if disabled then ids.isEmpty else !ids.isEmpty) &&
      ids.all (· ∈ allowed) && decide ids.Nodup

def removableStorageCapabilities : List Text :=
  ["removable_block_storage", "portable_mtp"]

def networkCapabilities : List Text :=
  ["system_proxy_state", "os_managed_vpn_state", "tunnel_interface_state",
    "route_change", "network_source_health"]

def noIDs (ids : Option (List Text)) : Bool := (ids.getD []).isEmpty

def validateClipboard (f : NativeFamilyFields) : Bool :=
  if f.mode = nativeModeDisabled then
    f.strategy = "disabled" && !f.observeOSClipboardChanges
  else if f.mode = nativeModeObserve then
    f.strategy = "disabled" && f.observeOSClipboardChanges
  else f.strategy = "private_attempt"

def validatePrinting (f : NativeFamilyFields) : Bool :=
  (f.monitoredSpooler = "required" || f.monitoredSpooler = "not_required") &&
    if f.mode = nativeModeDisabled then
      f.candidatePrintCommands = "not_applied" && f.monitoredSpooler = "not_required"
    else if f.mode = nativeModeObserve then
      f.candidatePrintCommands = "not_applied" && f.monitoredSpooler = "required"
    else f.candidatePrintCommands = "deny"

def validateCapture (f : NativeFamilyFields) (disabled : Bool) : Bool :=
  (f.concurrentUseCheck = "not_required" || f.concurrentUseCheck = "supported_required") &&
    !(disabled && (f.requireReady || f.concurrentUseCheck ≠ "not_required")) &&
    !(!disabled && !f.requireReady && f.concurrentUseCheck = "not_required")

/-- Whether `NativeFamilyPolicy.Validate` returns nil; it has one error only. -/
def NativeFamilyFields.validate (f : NativeFamilyFields) : Bool :=
  let disabled : Bool := f.mode = nativeModeDisabled
  isValidMode f.mode &&
    if f.id = "process_application" then
      validateNativePolicyIDs f.allowedApplicationIDs && !(disabled && !noIDs f.allowedApplicationIDs)
    else if f.id = "interactive_session" then true
    else if f.id = "clipboard" then validateClipboard f
    else if f.id = "printing" then validatePrinting f
    else if f.id = "removable_storage" then
      validateNativePolicySelection f.enabledSubCapabilities removableStorageCapabilities disabled &&
        validateNativePolicyIDs f.allowedStorageFunctionClassIDs &&
        !(disabled && !noIDs f.allowedStorageFunctionClassIDs)
    else if f.id = "virtualization" then
      if disabled then f.rule = "not_applied"
      else f.rule = "block_recognized_guest" ||
        f.rule = "require_certified_physical_environment"
    else if f.id = "network_configuration" then
      validateNativePolicySelection f.enabledSubCapabilities networkCapabilities disabled &&
        validateNativePolicyIDs f.allowedManagedProfileIDs &&
        validateNativePolicyIDs f.allowedAdapterClassIDs &&
        validateNativePolicyIDs f.allowedTunnelClassIDs &&
        !(disabled && (!noIDs f.allowedManagedProfileIDs || !noIDs f.allowedAdapterClassIDs ||
          !noIDs f.allowedTunnelClassIDs))
    else if f.id = "camera" || f.id = "microphone" then validateCapture f disabled
    else if f.id = "external_capture" then disabled
    else false

/-- How `json.Marshal` writes a slice of strings. -/
def idsDocument : Option (List Text) → Doc
  | none => .null
  | some ids => .arr (ids.map .str)

/-- The map that `NativeFamilyPolicy.MarshalJSON` fills, in the order of its keys, which is the
order in which `json.Marshal` writes a map. -/
def NativeFamilyFields.members (f : NativeFamilyFields) : List (Text × Doc) :=
  if f.id = "process_application" then
    [("allowed_application_ids", idsDocument f.allowedApplicationIDs),
      ("id", .str f.id), ("mode", .str f.mode)]
  else if f.id = "clipboard" then
    [("id", .str f.id), ("mode", .str f.mode),
      ("observe_os_clipboard_changes", .bool f.observeOSClipboardChanges),
      ("strategy", .str f.strategy)]
  else if f.id = "printing" then
    [("candidate_print_commands", .str f.candidatePrintCommands), ("id", .str f.id),
      ("mode", .str f.mode), ("monitored_spooler", .str f.monitoredSpooler)]
  else if f.id = "removable_storage" then
    [("allowed_storage_function_class_ids", idsDocument f.allowedStorageFunctionClassIDs),
      ("enabled_sub_capabilities", idsDocument f.enabledSubCapabilities),
      ("id", .str f.id), ("mode", .str f.mode)]
  else if f.id = "virtualization" then
    [("id", .str f.id), ("mode", .str f.mode), ("rule", .str f.rule)]
  else if f.id = "network_configuration" then
    [("allowed_adapter_class_ids", idsDocument f.allowedAdapterClassIDs),
      ("allowed_managed_profile_ids", idsDocument f.allowedManagedProfileIDs),
      ("allowed_tunnel_class_ids", idsDocument f.allowedTunnelClassIDs),
      ("enabled_sub_capabilities", idsDocument f.enabledSubCapabilities),
      ("id", .str f.id), ("mode", .str f.mode)]
  else if f.id = "camera" || f.id = "microphone" then
    [("concurrent_use_check", .str f.concurrentUseCheck), ("id", .str f.id),
      ("mode", .str f.mode), ("require_ready", .bool f.requireReady)]
  else [("id", .str f.id), ("mode", .str f.mode)]

def NativeFamilyFields.document (f : NativeFamilyFields) : Doc := .obj f.members

def validateExamDocumentJSON (data : Bytes) : Except CanonicalJson.Error Unit :=
  (canonicalize data data.length).map fun _ => ()

/-- What the custom decoders begin with: the size is checked, and the document is validated and read. -/
def readDocument {α : Type} (data : Bytes) (maximum : Nat) (read : Doc → Option α) : Option α := do
  if maximum < data.length then none
  (validateExamDocumentJSON data).toOption
  let (doc, _) ← decode data
  read doc

/-- `encodeCanonicalExamDocument`, on the document that `json.Marshal` writes for the value. -/
def encodeCanonicalExamDocument (value : Doc) : Except CanonicalJson.Error Bytes :=
  canonicalize value.marshal value.marshal.length

/-- The tagged fields of `nativeFamilyFields`. -/
def familyRow := Row.field "id" .string <| .field "mode" .string <|
  .field "allowed_application_ids" Codec.string.slice <|
  .field "strategy" .string <| .field "observe_os_clipboard_changes" .bool <|
  .field "candidate_print_commands" .string <| .field "monitored_spooler" .string <|
  .field "enabled_sub_capabilities" Codec.string.slice <|
  .field "allowed_storage_function_class_ids" Codec.string.slice <|
  .field "rule" .string <|
  .field "allowed_managed_profile_ids" Codec.string.slice <|
  .field "allowed_adapter_class_ids" Codec.string.slice <|
  .field "allowed_tunnel_class_ids" Codec.string.slice <|
  .field "require_ready" .bool <| .field "concurrent_use_check" .string .nil

abbrev FamilyTuple := Text × Text × Option (List Text) × Text × Bool × Text × Text ×
  Option (List Text) × Option (List Text) × Text × Option (List Text) × Option (List Text) ×
  Option (List Text) × Bool × Text × Unit

def packFamily : FamilyTuple → NativeFamilyFields
  | (id, mode, applications, strategy, clipboard, print, spooler, capabilities, storage, rule,
      profiles, adapters, tunnels, ready, concurrent, _) =>
    ⟨id, mode, applications, strategy, clipboard, print, spooler, capabilities, storage, rule,
      profiles, adapters, tunnels, ready, concurrent⟩

def unpackFamily (f : NativeFamilyFields) : FamilyTuple :=
  (f.id, f.mode, f.allowedApplicationIDs, f.strategy, f.observeOSClipboardChanges,
    f.candidatePrintCommands, f.monitoredSpooler, f.enabledSubCapabilities,
    f.allowedStorageFunctionClassIDs, f.rule, f.allowedManagedProfileIDs, f.allowedAdapterClassIDs,
    f.allowedTunnelClassIDs, f.requireReady, f.concurrentUseCheck, ())

def familyFields : List (StructField NativeFamilyFields) :=
  familyRow.fields.map (Row.fieldVia packFamily unpackFamily)

def NativeFamilyFields.unmarshalJSON (document : Bytes) : Option NativeFamilyFields :=
    readDocument document examPolicySetMaxBytes fun supplied => do
  let candidate ← unmarshalStruct familyFields supplied {}
  if !candidate.validate then none
  -- the supplied members are decoded into a map, which is written with sorted keys
  let raw ← (encodeCanonicalExamDocument supplied.sort).toOption
  let encoded ← (encodeCanonicalExamDocument candidate.document).toOption
  if raw = encoded then some candidate else none

structure NativeSecurityPolicy where
  registryDigest : Text := []
  baselineID : Text := []
  families : Option (List NativeFamilyFields) := none
  deriving DecidableEq, Repr

/-- Whether `NativeSecurityPolicy.Validate` returns nil: the families are exactly the registered
ones, in order, and each is valid. -/
def NativeSecurityPolicy.validate (p : NativeSecurityPolicy) : Bool :=
  p.registryDigest = nativeRegistryDigest && p.baselineID = "desktop_candidate" &&
    (p.families.getD []).map (·.id) = nativeFamilies && (p.families.getD []).all (·.validate)

/-- How `json.Marshal` writes a policy whose families are valid. -/
def NativeSecurityPolicy.document (p : NativeSecurityPolicy) : Doc :=
  .obj [("registry_digest", .str p.registryDigest), ("baseline_id", .str p.baselineID),
    ("families", match p.families with
      | none => .null
      | some families => .arr (families.map (·.document)))]

def securityFields : List (StructField NativeSecurityPolicy) :=
  [structField "registry_digest" unmarshalString (·.registryDigest) fun v s => { s with registryDigest := v },
    structField "baseline_id" unmarshalString (·.baselineID) fun v s => { s with baselineID := v },
    structField "families" (unmarshalSlice {} fun doc _ => NativeFamilyFields.unmarshalJSON (utf8 doc.text))
      (·.families) fun v s => { s with families := v }]

/-- `json.Unmarshal` into a map of raw messages, by its keys. -/
def memberNames : Doc → Option (List Text)
  | .obj members => some (members.map Prod.fst)
  | .null => some []
  | _ => none

def NativeSecurityPolicy.unmarshalJSON (document : Bytes) : Option NativeSecurityPolicy :=
    readDocument document examPolicySetMaxBytes fun supplied => do
  let candidate ← unmarshalStruct securityFields supplied {}
  if !candidate.validate then none
  let names ← memberNames supplied
  if names.length = 3 && names.contains "registry_digest" &&
    names.contains "baseline_id" && names.contains "families"
  then some candidate else none

end Proctor.ExamPolicy
