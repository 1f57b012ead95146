import Proctor.Json.Reader

/-! # The bounded canonical JSON encoding

The functions of `internal/canonicaljson`, over the token reader of `Json.Decoder`. The mutual
recursion of the source is over nested containers and loops; here it takes fuel, and
`canonicalize` supplies more than any document of its length can use. -/
namespace Proctor.CanonicalJson

open Json

def maxDepth : Nat := 64

def maxSafeInteger : Int := 2 ^ 53 - 1

inductive Error where
  | invalid | limit
  deriving DecidableEq, Repr

def ascii (value : Bytes) : Bool := value.all fun b => b < 0x80

def parseSign (s : Bytes) : Bool × Bytes :=
  match s with
  | b :: rest =>
    if b = '-'.toUInt8 then (true, rest) else if b = '+'.toUInt8 then (false, rest) else (false, s)
  | [] => (false, [])

/-- `strconv.ParseInt(s, 10, 64)`. -/
def parseInt (s : Bytes) : Option Int :=
  let (negative, digits) := parseSign s
  if digits = [] ∨ ¬ digits.all isDigitByte then none
  else
    let n := Nat.ofDigitChars 10 (digits.map fun b => Char.ofNat b.toNat) 0
    if negative then
      if n ≤ 2 ^ 63 then some (-(n : Int)) else none
    else
      if n < 2 ^ 63 then some (n : Int) else none

/-- `strconv.AppendInt(nil, n, 10)`. -/
def formatInt (n : Int) : Bytes := utf8 (decimal n)

def appendCharacter (character : UInt8) : Bytes :=
  if character = '"'.toUInt8 ∨ character = '\\'.toUInt8 then ['\\'.toUInt8, character]
  else if character = '\x08'.toUInt8 then ['\\'.toUInt8, 'b'.toUInt8]
  else if character = '\x0c'.toUInt8 then ['\\'.toUInt8, 'f'.toUInt8]
  else if character = '\n'.toUInt8 then ['\\'.toUInt8, 'n'.toUInt8]
  else if character = '\r'.toUInt8 then ['\\'.toUInt8, 'r'.toUInt8]
  else if character = '\t'.toUInt8 then ['\\'.toUInt8, 't'.toUInt8]
  else if character < 0x20 then
    ['\\'.toUInt8, 'u'.toUInt8, '0'.toUInt8, '0'.toUInt8,
      (Nat.digitChar (character.toNat / 16)).toUInt8, (Nat.digitChar (character.toNat % 16)).toUInt8]
  else [character]

def appendString (encoded value : Bytes) : Bytes :=
  encoded ++ '"'.toUInt8 :: value.flatMap appendCharacter ++ ['"'.toUInt8]

def unicodeEscape (data : Bytes) : Option Nat :=
  if data.length < 4 then none
  else (data.take 4).foldlM
    (fun value character => (hexDigitByte character).map fun digit => value * 16 + digit) 0

/-- The scan of the source from the current index on; `inside` is whether it is in a string. -/
@[grind] def validStringEscapes : Bool → Bytes → Bool
  | _, [] => true
  | inside, b :: rest =>
    if b = '"'.toUInt8 then validStringEscapes (!inside) rest
    else if b = '\\'.toUInt8 then
      if !inside then validStringEscapes inside rest
      else
        match rest with
        | [] => false
        | letter :: rest =>
          if letter ≠ 'u'.toUInt8 then validStringEscapes inside rest
          else
            match rest with
            | p :: q :: r :: s :: rest =>
              match unicodeEscape [p, q, r, s] with
              | none => false
              | some unit =>
                if isLowSurrogate unit then false
                else if !isHighSurrogate unit then validStringEscapes inside rest
                else
                  match rest with
                  | slash :: u :: p :: q :: r :: s :: rest =>
                    if slash ≠ '\\'.toUInt8 ∨ u ≠ 'u'.toUInt8 then false
                    else
                      match unicodeEscape [p, q, r, s] with
                      | none => false
                      | some low => if isLowSurrogate low then validStringEscapes inside rest else false
                  | _ => false
            | _ => false
    else validStringEscapes inside rest

/-- The members of an object in the order of `keys`, which is `slices.Sort`ed. -/
def appendMembers (values : List (Bytes × Bytes)) : Nat → Bytes → List Bytes → Bytes
  | _, encoded, [] => encoded
  | index, encoded, key :: keys =>
    let encoded := if index > 0 then encoded ++ [','.toUInt8] else encoded
    let encoded := appendString encoded key ++ [':'.toUInt8] ++ (values.lookup key).getD []
    appendMembers values (index + 1) encoded keys

mutual
@[grind] def readValue : Nat → Decoder → Nat → Except Error (Bytes × Decoder)
  | 0, _, _ => .error .invalid
  | fuel + 1, decoder, depth =>
    match decoder.token with
    | .error _ => .error .invalid
    | .ok (token, decoder) =>
      match token with
      | .null => .ok (utf8 ['n', 'u', 'l', 'l'], decoder)
      | .bool true => .ok (utf8 ['t', 'r', 'u', 'e'], decoder)
      | .bool false => .ok (utf8 ['f', 'a', 'l', 's', 'e'], decoder)
      | .string value => .ok (appendString [] value, decoder)
      | .number spelling =>
        match parseInt spelling with
        | none => .error .invalid
        | some integer =>
          if integer < -maxSafeInteger ∨ integer > maxSafeInteger then .error .invalid
          else .ok (formatInt integer, decoder)
      | .delim value =>
        if depth ≥ maxDepth then .error .limit
        else if value = '\x7b' then readObject fuel decoder (depth + 1) []
        else if value = '[' then readArray fuel decoder (depth + 1) ['['.toUInt8]
        else .error .invalid

/-- The loop of `readObject`; `values` are the members read so far with the keys in order. -/
@[grind] def readObject : Nat → Decoder → Nat → List (Bytes × Bytes) → Except Error (Bytes × Decoder)
  | 0, _, _, _ => .error .invalid
  | fuel + 1, decoder, depth, values =>
    if decoder.more then
      match decoder.token with
      | .ok (.string key, decoder) =>
        if !ascii key then .error .invalid
        else if (values.lookup key).isSome then .error .invalid
        else
          match readValue fuel decoder depth with
          | .error e => .error e
          | .ok (value, decoder) => readObject fuel decoder depth (values ++ [(key, value)])
      | _ => .error .invalid
    else
      match decoder.token with
      | .ok (.delim '\x7d', decoder) =>
        let keys := (values.map Prod.fst).insertionSort (· ≤ ·)
        .ok (appendMembers values 0 ['\x7b'.toUInt8] keys ++ ['\x7d'.toUInt8], decoder)
      | _ => .error .invalid

/-- The loop of `readArray`; `encoded` is the output so far with its opening bracket. -/
@[grind] def readArray : Nat → Decoder → Nat → Bytes → Except Error (Bytes × Decoder)
  | 0, _, _, _ => .error .invalid
  | fuel + 1, decoder, depth, encoded =>
    if decoder.more then
      match readValue fuel decoder depth with
      | .error e => .error e
      | .ok (value, decoder) =>
        let encoded := if encoded.length > 1 then encoded ++ [','.toUInt8] else encoded
        readArray fuel decoder depth (encoded ++ value)
    else
      match decoder.token with
      | .ok (.delim ']', decoder) => .ok (encoded ++ [']'.toUInt8], decoder)
      | _ => .error .invalid
end

def canonicalize (document : Bytes) (maxBytes : Int) : Except Error Bytes :=
  if maxBytes ≤ 0 ∨ (document.length : Int) > maxBytes then .error .limit
  else if document.length = 0 ∨ !utf8Valid document ∨ !validStringEscapes false document then
    .error .invalid
  else
    match readValue (2 * document.length + 2) (newDecoder document) 0 with
    | .error e => .error e
    | .ok (encoded, decoder) =>
      match decoder.token with
      | .error .eof => if (encoded.length : Int) > maxBytes then .error .limit else .ok encoded
      | _ => .error .invalid

end Proctor.CanonicalJson
