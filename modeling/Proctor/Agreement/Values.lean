import Proctor.Agreement.Closed

/-!
# Values of the agreement documents

Identifiers, fingerprints and instants as the documents spell them. An instant
is kept with the spelling it was received in, so that a document is encoded again
with the instants its author wrote.
-/

namespace Proctor.Agreement

open Json CanonicalJson ExamPolicy

/-- What the documents need from the packages around them: `time.Parse` and `Time.MarshalJSON` for
RFC 3339, unpadded `base64`, `SHA256Fingerprint`, and the host and port of an authority. -/
structure Library where
  parseTime : Text → Option Time
  marshalTime : Time → Option Text
  decodeBase64 : Text → Option Bytes
  encodeBase64 : Bytes → Text
  sha256Fingerprint : Bytes → Text
  canonicalBrowserHostPort : (scheme authority defaultPort : Text) → Option (Text × Text)

def instantZone (zone : Text) : Bool :=
  zone = "Z" || zone = "+00:00" || zone = "-00:00"

/-- The digits after the third are zeros, so that no precision below a millisecond is dropped. -/
def instantTail : Text → Bool
  | '.' :: rest =>
    let fraction := rest.takeWhile isDigit
    !fraction.isEmpty && (fraction.drop 3).all (· = '0') && instantZone (rest.dropWhile isDigit)
  | zone => instantZone zone

def securityInstantPattern : Text → Bool
  | y₁ :: y₂ :: y₃ :: y₄ :: '-' :: m₁ :: m₂ :: '-' :: d₁ :: d₂ :: 'T' :: h₁ :: h₂ :: ':' :: n₁ :: n₂ ::
      ':' :: s₁ :: s₂ :: tail =>
    [y₁, y₂, y₃, y₄, m₁, m₂, d₁, d₂, h₁, h₂, n₁, n₂, s₁, s₂].all isDigit && instantTail tail
  | _ => false

structure SecurityJSONInstant where
  time : Time
  spelling : Text
deriving DecidableEq, Repr

variable (lib : Library)

def SecurityJSONInstant.marshalJSON (v : SecurityJSONInstant) : Option Doc :=
  if v.spelling ≠ [] && (lib.parseTime v.spelling).any (·.equal v.time) then some (.str v.spelling)
  else (lib.marshalTime v.time).map .str

def SecurityJSONInstant.unmarshalJSON (doc : Doc) : Option SecurityJSONInstant := do
  let spelling ← unmarshalString doc []
  if !securityInstantPattern spelling then none
  let value ← lib.parseTime spelling
  if value.securityInstant then some ⟨value, spelling⟩ else none

def instantCodec : Codec SecurityJSONInstant :=
  .scalar ⟨⟨0, 0⟩, []⟩ (fun doc _ => SecurityJSONInstant.unmarshalJSON lib doc)
    (SecurityJSONInstant.marshalJSON lib) (fun _ => rfl) fun _ => rfl

/-- The identifier types: an empty one is spelled by `null` or the empty string. -/
def unmarshalIDJSON (doc : Doc) : Option Text := do
  let raw ← unmarshalString doc []
  if raw = [] || isValidOpaqueID raw then some raw else none

def marshalIDJSON (id : Text) : Option Doc :=
  if id ≠ [] && !isValidOpaqueID id then none else some (.str id)

def idCodec : Codec Text :=
  .scalar [] (fun doc _ => unmarshalIDJSON doc) marshalIDJSON (fun _ => rfl) fun _ => rfl

/-- `BrowserSourceSessionID.IsValid`: a random UUID in lower case. -/
def isValidSourceSession (id : Text) : Bool :=
  match id.splitOn '-' with
  | [a, b, c, d, e] =>
    a.length = 8 && b.length = 4 && c.length = 4 && d.length = 4 && e.length = 12 &&
      (a ++ b ++ c ++ d ++ e).all isLowerHex && c.head? = some '4' &&
      d.head?.any (· ∈ "89ab".toList)
  | _ => false

def isSecurityRevision (value : Text) : Bool :=
  1 ≤ size value && size value ≤ 128 && value.all fun c => ' ' ≤ c && c ≤ '~'

def validBrowserPolicyRuleID (value : Text) : Bool :=
  1 ≤ size value && size value ≤ 64 &&
    value.all fun c => ('a' ≤ c && c ≤ 'z') || isDigit c || c = '_' || c = '-'

end Proctor.Agreement
