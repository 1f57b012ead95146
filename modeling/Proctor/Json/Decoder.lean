import Proctor.Json.Canonical

/-! # The streaming token reader

`Decoder` models the token interface of Go's `encoding/json` on a fully buffered input with
`UseNumber`: the unread octets, the token state, and the states of the enclosing containers.
Scalars are lexed as RFC 8259 does. A surrogate escape without its partner decodes to U+FFFD, as
the standard library documents. -/
namespace Json

inductive TokenState where
  | topValue | arrayStart | arrayValue | arrayComma
  | objectStart | objectKey | objectColon | objectValue | objectComma
  deriving DecidableEq, Repr

inductive Token where
  | null
  | bool (b : Bool)
  | string (s : Bytes)
  | number (spelling : Bytes)
  | delim (c : Char)
  deriving DecidableEq, Repr

inductive TokenError where
  | eof | malformed
  deriving DecidableEq, Repr

structure Decoder where
  rest : Bytes
  state : TokenState
  stack : List TokenState
  deriving DecidableEq, Repr

def isSpaceByte (b : UInt8) : Bool :=
  b == ' '.toUInt8 || b == '\t'.toUInt8 || b == '\n'.toUInt8 || b == '\r'.toUInt8

def isDigitByte (b : UInt8) : Bool := '0'.toUInt8 ≤ b && b ≤ '9'.toUInt8

/-- One part of a string literal before surrogate escapes are paired. -/
inductive Literal where
  | byte (b : UInt8)
  | unit (u : Nat)
  deriving DecidableEq, Repr

def hexDigitByte (b : UInt8) : Option Nat := hexDigit (Char.ofNat b.toNat)

def hexUnitBytes (a b c d : UInt8) : Option Nat := do
  let a ← hexDigitByte a
  let b ← hexDigitByte b
  let c ← hexDigitByte c
  let d ← hexDigitByte d
  return ((a * 16 + b) * 16 + c) * 16 + d

def escapeByte (letter : UInt8) : Option UInt8 :=
  if letter = '"'.toUInt8 then some '"'.toUInt8
  else if letter = '\\'.toUInt8 then some '\\'.toUInt8
  else if letter = '/'.toUInt8 then some '/'.toUInt8
  else if letter = 'b'.toUInt8 then some '\x08'.toUInt8
  else if letter = 'f'.toUInt8 then some '\x0c'.toUInt8
  else if letter = 'n'.toUInt8 then some '\n'.toUInt8
  else if letter = 'r'.toUInt8 then some '\r'.toUInt8
  else if letter = 't'.toUInt8 then some '\t'.toUInt8
  else none

@[grind] def scanString : Bytes → Option (List Literal × Bytes)
  | [] => none
  | b :: rest =>
    if b = '"'.toUInt8 then some ([], rest)
    else if b = '\\'.toUInt8 then
      match rest with
      | [] => none
      | letter :: rest =>
        if letter = 'u'.toUInt8 then
          match rest with
          | p :: q :: r :: s :: rest =>
            match hexUnitBytes p q r s with
            | none => none
            | some u => (scanString rest).map fun (literals, rest) => (.unit u :: literals, rest)
          | _ => none
        else
          match escapeByte letter with
          | none => none
          | some value => (scanString rest).map fun (literals, rest) => (.byte value :: literals, rest)
    else if b < 0x20 then none
    else (scanString rest).map fun (literals, rest) => (.byte b :: literals, rest)

theorem scanString_quote (rest : Bytes) : scanString ('"'.toUInt8 :: rest) = some ([], rest) := by
  rw [scanString.eq_def]
  simp

def unitBytes (u : Nat) : Bytes :=
  String.utf8EncodeChar (if isHighSurrogate u || isLowSurrogate u then '\uFFFD' else Char.ofNat u)

@[grind] def unquote : List Literal → Bytes
  | [] => []
  | .byte b :: literals => b :: unquote literals
  | .unit u :: .unit low :: literals =>
    if isHighSurrogate u && isLowSurrogate low then
      String.utf8EncodeChar (surrogatePair u low) ++ unquote literals
    else unitBytes u ++ unquote (.unit low :: literals)
  | .unit u :: literals => unitBytes u ++ unquote literals

def scanDigits (bytes : Bytes) : Option (Bytes × Bytes) :=
  match bytes.takeWhile isDigitByte with
  | [] => none
  | digits => some (digits, bytes.dropWhile isDigitByte)

def scanSign (bytes : Bytes) : Bytes × Bytes :=
  match bytes with
  | b :: rest => if b = '-'.toUInt8 then ([b], rest) else ([], bytes)
  | [] => ([], [])

def scanInteger (bytes : Bytes) : Option (Bytes × Bytes) :=
  match bytes with
  | b :: rest => if b = '0'.toUInt8 then some ([b], rest) else scanDigits bytes
  | [] => none

def scanFraction (bytes : Bytes) : Option (Bytes × Bytes) :=
  match bytes with
  | b :: rest =>
    if b = '.'.toUInt8 then (scanDigits rest).map fun (digits, rest) => (b :: digits, rest)
    else some ([], bytes)
  | [] => some ([], [])

def scanExponentSign (bytes : Bytes) : Bytes × Bytes :=
  match bytes with
  | b :: rest => if b = '+'.toUInt8 || b = '-'.toUInt8 then ([b], rest) else ([], bytes)
  | [] => ([], [])

def scanExponent (bytes : Bytes) : Option (Bytes × Bytes) :=
  match bytes with
  | b :: rest =>
    if b = 'e'.toUInt8 || b = 'E'.toUInt8 then
      let (sign, rest) := scanExponentSign rest
      (scanDigits rest).map fun (digits, rest) => (b :: sign ++ digits, rest)
    else some ([], bytes)
  | [] => some ([], [])

def scanNumber (bytes : Bytes) : Option (Bytes × Bytes) := do
  let (sign, bytes) := scanSign bytes
  let (int, bytes) ← scanInteger bytes
  let (frac, bytes) ← scanFraction bytes
  let (exp, bytes) ← scanExponent bytes
  return (sign ++ int ++ frac ++ exp, bytes)

def scanWord (word : List Char) (token : Token) (bytes : Bytes) : Option (Token × Bytes) :=
  if word.map Char.toUInt8 = bytes.take word.length then some (token, bytes.drop word.length)
  else none

def scanScalar (bytes : Bytes) : Option (Token × Bytes) :=
  match bytes with
  | [] => none
  | b :: rest =>
    if b = '"'.toUInt8 then
      (scanString rest).map fun (literals, rest) => (.string (unquote literals), rest)
    else if b = 'n'.toUInt8 then scanWord ['n', 'u', 'l', 'l'] .null bytes
    else if b = 't'.toUInt8 then scanWord ['t', 'r', 'u', 'e'] (.bool true) bytes
    else if b = 'f'.toUInt8 then scanWord ['f', 'a', 'l', 's', 'e'] (.bool false) bytes
    else (scanNumber bytes).map fun (spelling, rest) => (.number spelling, rest)

def tokenValueAllowed : TokenState → Bool
  | .topValue | .arrayStart | .arrayValue | .objectValue => true
  | _ => false

def tokenValueEnd : TokenState → TokenState
  | .arrayStart | .arrayValue => .arrayComma
  | .objectValue => .objectComma
  | state => state

def Decoder.next (d : Decoder) : Except TokenError (Option Token × Decoder) :=
  match d.rest.dropWhile isSpaceByte with
  | [] => .error .eof
  | b :: rest =>
    if b = '['.toUInt8 then
      if tokenValueAllowed d.state then
        .ok (some (.delim '['), ⟨rest, .arrayStart, d.state :: d.stack⟩)
      else .error .malformed
    else if b = ']'.toUInt8 then
      match d.state, d.stack with
      | .arrayStart, outer :: stack | .arrayComma, outer :: stack =>
        .ok (some (.delim ']'), ⟨rest, tokenValueEnd outer, stack⟩)
      | _, _ => .error .malformed
    else if b = '\x7b'.toUInt8 then
      if tokenValueAllowed d.state then
        .ok (some (.delim '\x7b'), ⟨rest, .objectStart, d.state :: d.stack⟩)
      else .error .malformed
    else if b = '\x7d'.toUInt8 then
      match d.state, d.stack with
      | .objectStart, outer :: stack | .objectComma, outer :: stack =>
        .ok (some (.delim '\x7d'), ⟨rest, tokenValueEnd outer, stack⟩)
      | _, _ => .error .malformed
    else if b = ':'.toUInt8 then
      if d.state = .objectColon then .ok (none, ⟨rest, .objectValue, d.stack⟩)
      else .error .malformed
    else if b = ','.toUInt8 then
      if d.state = .arrayComma then .ok (none, ⟨rest, .arrayValue, d.stack⟩)
      else if d.state = .objectComma then .ok (none, ⟨rest, .objectKey, d.stack⟩)
      else .error .malformed
    else if b = '"'.toUInt8 && (d.state = .objectStart || d.state = .objectKey) then
      match scanString rest with
      | none => .error .malformed
      | some (literals, rest) =>
        .ok (some (.string (unquote literals)), ⟨rest, .objectColon, d.stack⟩)
    else if tokenValueAllowed d.state then
      match scanScalar (b :: rest) with
      | none => .error .malformed
      | some (token, rest) => .ok (some token, ⟨rest, tokenValueEnd d.state, d.stack⟩)
    else .error .malformed

/-- `Decoder.Token`. A separator is never followed by another one, so two rounds are enough. -/
def Decoder.token (d : Decoder) : Except TokenError (Token × Decoder) :=
  match d.next with
  | .error e => .error e
  | .ok (some token, d) => .ok (token, d)
  | .ok (none, d) =>
    match d.next with
    | .error e => .error e
    | .ok (some token, d) => .ok (token, d)
    | .ok (none, _) => .error .malformed

def Decoder.more (d : Decoder) : Bool :=
  match d.rest.dropWhile isSpaceByte with
  | [] => false
  | b :: _ => b != ']'.toUInt8 && b != '\x7d'.toUInt8

def newDecoder (document : Bytes) : Decoder := ⟨document, .topValue, []⟩

end Json
