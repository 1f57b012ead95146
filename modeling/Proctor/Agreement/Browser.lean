import Proctor.Agreement.Values
import Proctor.Delivery.Lifecycle

/-!
# Declarations and Browser documents

The documents with which a client declares missing and unretained positions, the
start of a Browser source and a batch of its events, each with its field list and
its checks. Strings are texts, and a slice or a pointer is `none` when it is nil.
-/

namespace Proctor.Agreement

open Json CanonicalJson ExamPolicy
open Option (isNone)
open Delivery (FinalDeliveryDeclaration securitySafeInt SequenceRange validateSequenceRanges)

variable (lib : Library)

/-! ## Declarations -/

def sequenceRangeCodec : Codec SequenceRange :=
  (Codec.struct <| .field "first" .int <| .field "last" .int .nil).via
    (fun (first, last, _) => ⟨first, last⟩) (fun r => (r.first, r.last, ())) fun _ => rfl

structure DeclareDeliveryGaps where
  declarationID : Text
  expectedDeclarationRevision : Int
  allocatedThroughSequence : Int
  ranges : Option (List SequenceRange)
  reason : Text
deriving DecidableEq, Repr

def declareDeliveryGapsWire : Codec DeclareDeliveryGaps :=
  (Codec.struct <| .field "declaration_id" .string <| .field "expected_revision" .int <|
    .field "allocated_through_sequence" .int <|
    .field "ranges" sequenceRangeCodec.slice <| .field "reason" .string .nil).via
    (fun (declarationID, revision, allocated, ranges, reason, _) =>
      ⟨declarationID, revision, allocated, ranges, reason⟩)
    (fun d => (d.declarationID, d.expectedDeclarationRevision, d.allocatedThroughSequence, d.ranges,
      d.reason, ()))
    fun _ => rfl

def DeclareDeliveryGaps.validate (d : DeclareDeliveryGaps) : Bool :=
  isValidAgreementID d.declarationID && securitySafeInt d.expectedDeclarationRevision &&
    securitySafeInt d.allocatedThroughSequence &&
    d.ranges.any (fun ranges => !ranges.isEmpty && validateSequenceRanges ranges 32 &&
      ranges.getLast?.all fun r => !(r.last > d.allocatedThroughSequence)) &&
    (d.reason = "spool_corrupt" || d.reason = "spool_lost" ||
      d.reason = "local_capacity_exhausted") &&
    encodesWithin declareDeliveryGapsWire d (8 * 1024)

def finalDeliveryDeclarationWire : Codec FinalDeliveryDeclaration :=
  (Codec.struct <| .field "declaration_id" .string <| .field "expected_revision" .int <|
    .field "final_sequence" .int .nil).via
    (fun (declarationID, revision, final, _) => ⟨declarationID, revision, final⟩)
    (fun d => (d.declarationID, d.expectedDeclarationRevision, d.finalSequence, ())) fun _ => rfl

structure UnretainedDeliverySummary where
  summarySequence : Int
  unretainedRecordCount : Int
  countComplete : Bool
  firstUnretainedAt : Option SecurityJSONInstant
  lastUnretainedAt : Option SecurityJSONInstant
deriving DecidableEq, Repr

def unretainedDeliverySummaryWire : Codec UnretainedDeliverySummary :=
  (Codec.struct <| .field "summary_sequence" .int <|
    .field "unretained_record_count" .int <| .field "count_complete" .bool <|
    .omitempty "first_unretained_at" isNone (instantCodec lib).pointer <|
    .omitempty "last_unretained_at" isNone (instantCodec lib).pointer .nil).via
    (fun (sequence, count, complete, first, last, _) => ⟨sequence, count, complete, first, last⟩)
    (fun s => (s.summarySequence, s.unretainedRecordCount, s.countComplete, s.firstUnretainedAt,
      s.lastUnretainedAt, ()))
    fun _ => rfl

def UnretainedDeliverySummary.validate (s : UnretainedDeliverySummary) : Bool :=
  !(s.summarySequence ≤ 0) && securitySafeInt s.summarySequence &&
    securitySafeInt s.unretainedRecordCount &&
    s.firstUnretainedAt.all (·.time.securityInstant) &&
    s.lastUnretainedAt.all (·.time.securityInstant)

/-! ## Browser policies and sources -/

/-- `browserPolicyRuleWire`; the rules are checked with the whole policy. -/
structure BrowserPolicyRule where
  ruleID : Text
  origin : Text
  pathPrefix : Text
  hostMatch : Text
  allowRedirects : Bool
  blockedNavigationOutcome : Text
  institutionHTTPException : Bool
deriving DecidableEq, Repr

def browserPolicyRuleWire : Codec BrowserPolicyRule :=
  (Codec.struct <| .field "rule_id" .string <| .field "origin" .string <|
    .field "path_prefix" .string <| .field "host_match" .string <|
    .field "allow_redirects" .bool <| .field "blocked_navigation_outcome" .string <|
    .field "institution_http_exception" .bool .nil).via
    (fun (ruleID, origin, path, host, redirects, outcome, exception, _) =>
      ⟨ruleID, origin, path, host, redirects, outcome, exception⟩)
    (fun r => (r.ruleID, r.origin, r.pathPrefix, r.hostMatch, r.allowRedirects,
      r.blockedNavigationOutcome, r.institutionHTTPException, ()))
    fun _ => rfl

def browserPolicyMaximumBytes : Nat := 32 * 1024

structure BrowserStartTransition where
  kind : Text
  predecessorSourceSessionID : Text
  reason : Text
deriving DecidableEq, Repr

def browserStartTransitionWire : Codec BrowserStartTransition :=
  (Codec.struct <| .field "kind" .string <|
    .omitempty "predecessor_source_session_id" List.isEmpty .string <|
    .omitempty "reason" List.isEmpty .string .nil).via
    (fun (kind, predecessor, reason, _) => ⟨kind, predecessor, reason⟩)
    (fun t => (t.kind, t.predecessorSourceSessionID, t.reason, ())) fun _ => rfl

/-- `BrowserSourceResetReason.IsValid`. -/
def isValidResetReason (reason : Text) : Bool :=
  reason = "coordinator_restarted" || reason = "spool_unavailable" ||
    reason = "source_corrupt"

def BrowserStartTransition.validate (t : BrowserStartTransition) : Bool :=
  if t.kind = "initial" then
    t.predecessorSourceSessionID.isEmpty && t.reason.isEmpty
  else if t.kind = "policy_correction" then
    isValidSourceSession t.predecessorSourceSessionID && t.reason.isEmpty
  else if t.kind = "runtime_reset" then
    isValidSourceSession t.predecessorSourceSessionID && isValidResetReason t.reason
  else false

def browserStartTransitionCodec : Codec BrowserStartTransition :=
  closed browserStartTransitionWire 2048 BrowserStartTransition.validate

structure BrowserSourceStart where
  participationID : Text
  generation : Int
  sourceSessionID : Text
  policyRevisionID : Text
  policyDigest : Text
  transition : BrowserStartTransition
deriving DecidableEq, Repr

def browserSourceStartWire : Codec BrowserSourceStart :=
  (Codec.struct <| .field "participation_id" idCodec <| .field "generation" .int <|
    .field "source_session_id" .string <| .field "policy_revision_id" idCodec <|
    .field "policy_digest" .string <|
    .field "transition" browserStartTransitionCodec .nil).via
    (fun (participation, generation, session, revision, digest, transition, _) =>
      ⟨participation, generation, session, revision, digest, transition⟩)
    (fun s => (s.participationID, s.generation, s.sourceSessionID, s.policyRevisionID,
      s.policyDigest, s.transition, ()))
    fun _ => rfl

def BrowserSourceStart.validate (s : BrowserSourceStart) : Bool :=
  isValidOpaqueID s.participationID && !(s.generation < 1) && securitySafeInt s.generation &&
    isValidSourceSession s.sourceSessionID && isValidOpaqueID s.policyRevisionID &&
    isValidSHA256Fingerprint s.policyDigest && s.transition.validate &&
    s.transition.predecessorSourceSessionID ≠ s.sourceSessionID

/-! ## Locations -/

structure BrowserLocation where
  scheme : Text
  host : Text
  port : Text
  path : Text
deriving DecidableEq, Repr

def browserLocationCodec : Codec BrowserLocation :=
  (Codec.struct <| .field "scheme" .string <| .field "host" .string <|
    .omitempty "port" List.isEmpty .string <| .field "path" .string .nil).via
    (fun (scheme, host, port, path, _) => ⟨scheme, host, port, path⟩)
    (fun l => (l.scheme, l.host, l.port, l.path, ())) fun _ => rfl

def browserNavigationMaximumCharacters : Nat := 8192

def browserLocationMaximumPathBytes : Nat := 9 * browserNavigationMaximumCharacters

def invalidBrowserURLText (value : Text) : Bool :=
  value.isEmpty || value.contains '\\' || value.any fun c => c < ' ' || c = '\x7f'

def fromHex (c : Char) : Option Nat :=
  if isDigit c then some (c.toNat - '0'.toNat)
  else if 'a' ≤ c && c ≤ 'f' then some (c.toNat - 'a'.toNat + 10)
  else if 'A' ≤ c && c ≤ 'F' then some (c.toNat - 'A'.toNat + 10)
  else none

/-- Every percent sign starts a triplet that does not encode a path separator. -/
def percentEncoded : Text → Bool
  | [] => true
  | '%' :: high :: low :: rest =>
    match fromHex high, fromHex low with
    | some h, some l =>
      let decoded := 16 * h + l
      decoded ≠ '/'.toNat && decoded ≠ '\\'.toNat && percentEncoded rest
    | _, _ => false
  | '%' :: _ => false
  | _ :: rest => percentEncoded rest

def browserDotSegment (value : Text) : Nat :=
  let lower := value.map Char.toLower
  if lower = "." || lower = "%2e" then 1
  else if lower = ".." || lower = ".%2e" || lower = "%2e." ||
    lower = "%2e%2e" then 2
  else 0

def selectSegments : List Text → List Text → List Text
  | [], selected => selected
  | segment :: rest, selected =>
    let dot := browserDotSegment segment
    let selected := if dot = 2 then selected.dropLast else selected
    selectSegments rest <|
      if dot = 0 then selected ++ [segment] else if rest.isEmpty then selected ++ [[]] else selected

def hexDigit (n : Nat) : Char := "0123456789ABCDEF".toList.getD n '0'

def percentTriplet (b : UInt8) : Text := ['%', hexDigit (b.toNat / 16), hexDigit (b.toNat % 16)]

def escapePathChar (c : Char) : Text :=
  if c ≤ ' ' || '~' < c || "\"<>`\x7b\x7d".toList.contains c then (utf8 [c]).flatMap percentTriplet
  else [c]

def canonicalBrowserPath (value : Text) : Option Text :=
  if value.head? ≠ some '/' || invalidBrowserURLText value || value.contains '?' ||
      value.contains '#' || !percentEncoded value then none
  else
    let selected := selectSegments ((value.drop 1).splitOn '/') []
    some (('/' :: List.intercalate ['/'] selected).flatMap escapePathChar)

def browserHostPort (host port : Text) : Text :=
  if port = [] then host else host ++ ':' :: port

def BrowserLocation.validateNetwork (l : BrowserLocation) (scheme defaultPort : Text) : Bool :=
  l.scheme = scheme && l.host ≠ [] && l.host.map Char.toLower = l.host &&
    !l.host.any ("\\/?#@".toList.contains ·) && size l.path ≤ browserLocationMaximumPathBytes &&
    lib.canonicalBrowserHostPort scheme (browserHostPort l.host l.port) defaultPort =
      some (l.host, l.port) &&
    canonicalBrowserPath l.path = some l.path

def BrowserLocation.validate (l : BrowserLocation) : Bool :=
  if l.scheme = "http" then l.validateNetwork lib "http" "80"
  else l.validateNetwork lib "https" "443"

def browserActivitySchemePattern : Text → Bool
  | [] => false
  | c :: rest => ('a' ≤ c && c ≤ 'z') && rest.all fun c =>
      ('a' ≤ c && c ≤ 'z') || isDigit c || c = '+' || c = '.' || c = '-'

/-- `BrowserActivityBlockReason`; a text that is no reason is refused where the event is checked. -/
def browserBlockReasons : List Text :=
  ["scheme_not_allowed", "origin_not_allowed", "path_not_allowed",
    "redirect_not_allowed", "invalid_url"]

def BrowserLocation.validateBlocked (l : BrowserLocation) (reason : Text) : Bool :=
  if reason = "invalid_url" then l = ⟨[], [], [], []⟩
  else if reason = "scheme_not_allowed" then
    1 ≤ size l.scheme && size l.scheme ≤ 32 && browserActivitySchemePattern l.scheme &&
      l.scheme ≠ "https" &&
      if l.scheme = "http" then l.validateNetwork lib "http" "80"
      else l.host = [] && l.port = [] && l.path = []
  else if reason = "origin_not_allowed" || reason = "path_not_allowed" ||
      reason = "redirect_not_allowed" then l.validate lib
  else false

/-! ## Events -/

/-- The time of receipt is not in the document and is zero in a client's record. -/
structure BrowserActivityEvent where
  sequence : Int
  kind : Text
  policyRevisionID : Text
  clientOccurredAt : SecurityJSONInstant
  location : Option BrowserLocation
  matchedRuleID : Option Text
  blockReason : Option Text
  redirectFromSequence : Option Int
deriving DecidableEq, Repr

def browserActivityEventWire : Codec BrowserActivityEvent :=
  (Codec.struct <| .field "sequence" .int <| .field "kind" .string <|
    .field "policy_revision_id" idCodec <|
    .field "client_occurred_at" (instantCodec lib) <|
    .omitempty "location" isNone browserLocationCodec.pointer <|
    .omitempty "matched_rule_id" isNone Codec.string.pointer <|
    .omitempty "block_reason" isNone Codec.string.pointer <|
    .omitempty "redirect_from_sequence" isNone Codec.int.pointer .nil).via
    (fun (sequence, kind, revision, instant, location, rule, reason, redirect, _) =>
      ⟨sequence, kind, revision, instant, location, rule, reason, redirect⟩)
    (fun e => (e.sequence, e.kind, e.policyRevisionID, e.clientOccurredAt, e.location,
      e.matchedRuleID, e.blockReason, e.redirectFromSequence, ()))
    fun _ => rfl

def BrowserActivityEvent.validateNavigation (e : BrowserActivityEvent) : Bool :=
  if e.kind = "browser_opened" || e.kind = "browser_closed" then
    e.location.isNone && e.matchedRuleID.isNone && e.blockReason.isNone
  else if e.kind = "top_level_navigation" || e.kind = "top_level_redirect" then
    e.matchedRuleID.any validBrowserPolicyRuleID && e.blockReason.isNone &&
      e.location.any (·.validate lib)
  else if e.kind = "blocked_top_level_navigation" then
    e.blockReason.any fun reason =>
      browserBlockReasons.contains reason && e.matchedRuleID.all validBrowserPolicyRuleID &&
        !((reason = "scheme_not_allowed" || reason = "invalid_url") &&
          e.matchedRuleID.isSome) &&
        e.location.any (·.validateBlocked lib reason)
  else false

def BrowserActivityEvent.validateClientRecord (e : BrowserActivityEvent) : Bool :=
  !(e.sequence < 1) && securitySafeInt e.sequence && isValidOpaqueID e.policyRevisionID &&
    e.clientOccurredAt.time.securityInstant &&
    e.redirectFromSequence.all (fun origin => !(origin < 1) && !(origin ≥ e.sequence)) &&
    !((e.kind = "top_level_redirect" || e.blockReason = some "redirect_not_allowed".toList) &&
      e.redirectFromSequence.isNone) &&
    !(e.redirectFromSequence.isSome && e.kind ≠ "top_level_redirect" &&
      e.kind ≠ "blocked_top_level_navigation") &&
    e.validateNavigation lib

def browserActivityAppendMaximumBytes : Nat := 256 * 1024

/-- `MarshalJSON` refuses an event that does not validate. -/
def browserActivityEventCodec : Codec BrowserActivityEvent :=
  (closed (browserActivityEventWire lib) browserActivityAppendMaximumBytes
    (BrowserActivityEvent.validateClientRecord lib)).guarded
    (BrowserActivityEvent.validateClientRecord lib)

structure BrowserActivityBatch where
  sourceSessionID : Text
  participationID : Text
  generation : Int
  policyRevisionID : Text
  policyDigest : Text
  events : Option (List BrowserActivityEvent)
deriving DecidableEq, Repr

def browserActivityBatchWire : Codec BrowserActivityBatch :=
  (Codec.struct <| .field "source_session_id" .string <|
    .field "participation_id" idCodec <| .field "generation" .int <|
    .field "policy_revision_id" idCodec <| .field "policy_digest" .string <|
    .field "events" (browserActivityEventCodec lib).slice .nil).via
    (fun (session, participation, generation, revision, digest, events, _) =>
      ⟨session, participation, generation, revision, digest, events⟩)
    (fun b => (b.sourceSessionID, b.participationID, b.generation, b.policyRevisionID,
      b.policyDigest, b.events, ()))
    fun _ => rfl

def increasingSequences (previous : Option Int) : List BrowserActivityEvent → Bool
  | [] => true
  | e :: rest => previous.all (fun p => !(e.sequence ≤ p)) && increasingSequences (some e.sequence) rest

def BrowserActivityBatch.validate (b : BrowserActivityBatch) : Bool :=
  isValidSourceSession b.sourceSessionID && isValidOpaqueID b.participationID &&
    !(b.generation < 1) && securitySafeInt b.generation && isValidOpaqueID b.policyRevisionID &&
    isValidSHA256Fingerprint b.policyDigest &&
    (b.events.getD []).length ≥ 1 && (b.events.getD []).length ≤ 64 &&
    (b.events.getD []).all (fun e =>
      e.validateClientRecord lib && e.policyRevisionID = b.policyRevisionID) &&
    increasingSequences none (b.events.getD []) &&
    encodesWithin (browserActivityBatchWire lib) b browserActivityAppendMaximumBytes

end Proctor.Agreement
