import Proctor.Json.Canonical

/-! # Values of the model package

The strings, numbers, identifiers and times that the packages of the server share. Go strings are
texts, except where a package has to read bytes that are not UTF-8. -/
namespace Proctor

open Json

abbrev Text := List Char

/-- A literal stands for its characters. -/
instance : Coe String Text := ⟨String.toList⟩

/-- `math.MaxInt64`, also `int(^uint(0)>>1)` and the largest `bigint`. -/
def maximumInt64 : Int := 9223372036854775807

/-! ## Characters -/

def isDigit (c : Char) : Bool := '0' ≤ c && c ≤ '9'

def isLowerHex (c : Char) : Bool := isDigit c || ('a' ≤ c && c ≤ 'f')

/-- A digit that `hex.DecodeString` reads. -/
def isHexDigit (c : Char) : Bool := isLowerHex c || ('A' ≤ c && c ≤ 'F')

/-- `unicode.IsControl`. -/
def isControl (c : Char) : Bool := c.toNat < 0x20 || (0x7f ≤ c.toNat && c.toNat < 0xa0)

/-- `unicode.IsSpace`. -/
def isUnicodeSpace (c : Char) : Bool :=
  [0x09, 0x0A, 0x0B, 0x0C, 0x0D, 0x20, 0x85, 0xA0, 0x1680, 0x2028, 0x2029, 0x202F, 0x205F, 0x3000].contains
    c.toNat || (0x2000 ≤ c.toNat && c.toNat ≤ 0x200A)

/-- `strings.TrimFunc`. -/
def trimFunc {α : Type} (cut : α → Bool) (value : List α) : List α :=
  (value.dropWhile cut).rdropWhile cut

def trimSpace (value : Text) : Text := trimFunc isUnicodeSpace value

/-! ## Identifiers, tokens and fingerprints -/

def idLength : Nat := 26

def idAlphabet : Text := "ybndrfg8ejkmcpqxot1uwisza345h769"

def isValidOpaqueID (value : Text) : Bool := size value == idLength && value.all idAlphabet.contains

/-- Two hexadecimal digits for each of `bytes` bytes. -/
def isHexOf (bytes : Nat) (value : Text) : Bool := size value == 2 * bytes && value.all isHexDigit

def isValidTokenHash (value : Text) : Bool := isHexOf 32 value

def isValidSHA256Fingerprint (value : Text) : Bool :=
  value.take 7 = "sha256:" && (value.drop 7).length = 64 && (value.drop 7).all isLowerHex

/-! ## Times -/

/-- A `time.Time`: nanoseconds since the zero time and the offset of its zone. -/
structure Time where
  nanoseconds : Int
  offset : Int
deriving DecidableEq, Repr

def Time.equal (t u : Time) : Bool := t.nanoseconds = u.nanoseconds

def Time.isZero (t : Time) : Bool := t.nanoseconds = 0

/-- The time in UTC that lies `milliseconds` after the zero time. -/
def Time.utc (milliseconds : Int) : Time := ⟨milliseconds * 1000000, 0⟩

def Time.securityInstant (value : Time) : Bool :=
  !value.isZero && value.offset = 0 && value.nanoseconds % 1000000 = 0

theorem Time.securityInstant_utc (milliseconds : Int) :
    (Time.utc milliseconds).securityInstant = true ↔ milliseconds ≠ 0 := by
  simp [securityInstant, isZero, utc]

end Proctor
