import Proctor.Json.Writer
import Proctor.Values.Basic

/-! # The Markdown sanitizer

Model of `safemarkdown.Sanitize`. Strings are byte strings. A scan that skips what it has read carries
the number of bytes that are still to be skipped; a slice beyond the end of a string panics, which is
`none`. What depends on the tables of Unicode, HTML and URLs is left to a `Library`. -/
namespace Proctor.Markdown

open Json (Bytes utf8 runes runesLength repaired)
open Option

structure Library where
  /-- `unicode.ToLower` beyond ASCII, where it finds letters only. -/
  lowerBeyond : Char → Char
  lowerBeyond_ne : ∀ c, lowerBeyond c ≠ '<'
  /-- `html.UnescapeString` -/
  unescapeString : Bytes → Bytes
  /-- The scheme that `url.Parse` finds. -/
  parseScheme : Bytes → Option Bytes

def text (s : String) : Bytes := utf8 s.toList

abbrev byte (c : Char) : UInt8 := c.toUInt8

/-! ## Strings -/

def Library.lowerRune (lib : Library) (c : Char) : Char :=
  if c.toNat < 128 then c.toLower else lib.lowerBeyond c

/-- `strings.ToLower`, which writes the replacement character for what is no encoding. -/
def Library.toLower (lib : Library) (value : Bytes) : Bytes := utf8 ((repaired value).map lib.lowerRune)

def isSpaceRune (rune : Option Char) : Bool := rune.any isUnicodeSpace

/-- `strings.TrimSpace`. -/
def trimSpace (value : Bytes) : Bytes :=
  (value.drop (runesLength ((runes value).takeWhile isSpaceRune))).take
    (runesLength (trimFunc isSpaceRune (runes value)))

/-- `strings.IndexFunc`. -/
def indexFunc (found : Option Char → Bool) (value : Bytes) : Option Nat :=
  ((runes value).findIdx? found).map fun n => runesLength ((runes value).take n)

/-- A loop over the bytes of a value. Where `step` finds something at the front of what is left, it says
what to write for it and how many bytes it takes; elsewhere the next byte is written. -/
def scan (step : Bytes → Option (Bytes × Nat)) : Nat → Bytes → Bytes
  | _, [] => []
  | skipped + 1, _ :: rest => scan step skipped rest
  | 0, b :: rest => match step (b :: rest) with
    | some (written, length) => written ++ scan step (length - 1) rest
    | none => b :: scan step 0 rest

def isControlOrSpace (rune : Option Char) : Bool := rune.any fun c => isControl c || isUnicodeSpace c

def index (pattern : Bytes) : Bytes → Option Nat
  | [] => if pattern = [] then some 0 else none
  | b :: rest => if pattern.isPrefixOf (b :: rest) then some 0 else (index pattern rest).map (· + 1)

def contains (pattern value : Bytes) : Bool := (index pattern value).isSome

def repeatedByte (value : Bytes) (target : UInt8) : Nat := (value.takeWhile (· = target)).length

def codeSpan (value : Bytes) : Option Nat :=
  let run := repeatedByte value (byte '`')
  (index (List.replicate run (byte '`')) (value.drop run)).map fun offset => run + offset + run

/-! ## Code -/

/-- A prefix of the placeholders that the value does not contain. -/
def markerFrom (value : Bytes) : Nat → Bytes → Bytes
  | 0, marker => marker
  | fuel + 1, marker => if contains marker value then markerFrom value fuel (marker ++ [byte 'x']) else marker

def marker (value : Bytes) : Bytes :=
  markerFrom value (value.length + 1) (0 :: text "proctor-markdown-code-")

variable {value tag : Bytes} {fuel start stop : Nat}

theorem length_le_of_contains {pattern : Bytes} (h : contains pattern value) :
    pattern.length ≤ value.length := by
  induction value with
  | nil =>
    rw [contains, index] at h
    split at h
    · next hEmpty => exact Nat.le_of_eq (congrArg List.length hEmpty)
    · cases h
  | cons b rest ih =>
    rw [contains, index] at h
    split at h
    · next hFront => exact (List.isPrefixOf_iff_prefix.mp hFront).length_le
    · rw [isSome_map] at h
      exact Nat.le_succ_of_le (ih h)

theorem markerFrom_fresh {start : Bytes} (hFuel : value.length < start.length + fuel) :
    contains (markerFrom value fuel start) value = false := by
  induction fuel generalizing start with
  | zero =>
    rw [markerFrom, Bool.eq_false_iff]
    intro hHas
    have := length_le_of_contains hHas
    omega
  | succ fuel ih =>
    rw [markerFrom]
    split
    · refine ih ?_
      rw [List.length_append, List.length_singleton]
      omega
    · next hFresh => exact Bool.eq_false_iff.mpr hFresh

theorem marker_fresh (value : Bytes) : contains (marker value) value = false := by
  refine markerFrom_fresh ?_
  omega

def placeholder (marker : Bytes) (index : Nat) : Bytes := marker ++ utf8 (Nat.toDigits 10 index) ++ [0]

def protectFrom (marker : Bytes) : Nat → Nat → Bytes → Bytes × List Bytes
  | _, _, [] => ([], [])
  | skipped + 1, count, _ :: rest => protectFrom marker skipped count rest
  | 0, count, b :: rest =>
    if b ≠ byte '`' then
      let more := protectFrom marker 0 count rest
      (b :: more.1, more.2)
    else match codeSpan (b :: rest) with
      | none => (b :: rest, [])
      | some length =>
        let more := protectFrom marker (length - 1) (count + 1) rest
        (placeholder marker count ++ more.1, (b :: rest).take length :: more.2)

def protectMarkdownCode (value : Bytes) : Bytes × List Bytes := protectFrom (marker value) 0 0 value

/-- `strings.ReplaceAll`, for a pattern that is not empty. -/
def replaceAll (old new value : Bytes) : Bytes :=
  scan (fun rest => if old.isPrefixOf rest then some (new, old.length) else none) 0 value

def restore (marker : Bytes) (snippets : List Bytes) (value : Bytes) : Bytes :=
  snippets.zipIdx.foldl (fun value snippet => replaceAll (placeholder marker snippet.2) snippet.1 value) value

/-! ## Active elements -/

def isSpaceByte (b : UInt8) : Bool := (9 ≤ b && b ≤ 13) || b = 0x20 || b = 0x85 || b = 0xa0

def endsTag : Bytes → Bool
  | [] => true
  | b :: _ => b = byte '>' || b = byte '/' || isSpaceByte b

/-- `findHTMLTag` from the given position on. -/
def findHTMLTag (needle : Bytes) : Nat → Nat → Bytes → Option Nat
  | _, _, [] => none
  | skipped + 1, position, _ :: rest => findHTMLTag needle skipped (position + 1) rest
  | 0, position, b :: rest =>
    if needle.isPrefixOf (b :: rest) then
      if endsTag ((b :: rest).drop needle.length) then some position
      else findHTMLTag needle (needle.length - 1) (position + 1) rest
    else findHTMLTag needle 0 (position + 1) rest

/-- `value[:stop]`. -/
def sliceTo (value : Bytes) (stop : Nat) : Option Bytes :=
  if stop ≤ value.length then some (value.take stop) else none

/-- `value[:stop] + value[start:]`. -/
def cut (value : Bytes) (stop start : Nat) : Option Bytes :=
  if stop ≤ value.length ∧ start ≤ value.length then some (value.take stop ++ value.drop start) else none

/-- The part of a value that an active element takes: where it begins, and where it ends if it does. -/
def activeElement (lib : Library) (tag value : Bytes) : Option (Nat × Option Nat) :=
  let lower := lib.toLower value
  (findHTMLTag (byte '<' :: tag) 0 0 lower).map fun start =>
    (start, do
      let openEnd ← (index [byte '>'] (lower.drop start)).map (· + start)
      if start < openEnd ∧ lower[openEnd - 1]? = some (byte '/') then some (openEnd + 1)
      else do
        let closeStart ← (index (byte '<' :: byte '/' :: tag) (lower.drop (openEnd + 1))).map (· + (openEnd + 1))
        (index [byte '>'] (lower.drop closeStart)).map (· + closeStart + 1))

/-- The loop of `removeActiveHTMLElements` for one tag; every round makes the value shorter. -/
def removeElements (lib : Library) (tag : Bytes) : Nat → Bytes → Option Bytes
  | 0, value => some value
  | fuel + 1, value => match activeElement lib tag value with
    | none => some value
    | some (start, none) => sliceTo value start
    | some (start, some stop) => (cut value start stop).bind (removeElements lib tag fuel)

theorem length_cut {shorter : Bytes} (hLess : stop < start)
    (h : cut value stop start = some shorter) : shorter.length < value.length := by
  unfold cut at h
  split at h
  · next hWithin =>
    rw [← some.inj h, List.length_append, List.length_take, List.length_drop]
    omega
  · cases h

theorem activeElement_lt {lib : Library}
    (h : activeElement lib tag value = some (start, some stop)) : start < stop := by
  obtain ⟨position, -, hPair⟩ := map_eq_some_iff.mp h
  obtain ⟨rfl, hStop⟩ := Prod.mk.inj hPair
  obtain ⟨openEnd, hOpen, hStop⟩ := bind_eq_some_iff.mp hStop
  obtain ⟨offset, -, rfl⟩ := map_eq_some_iff.mp hOpen
  split at hStop
  · cases hStop
    omega
  obtain ⟨closeStart, hClose, hStop⟩ := bind_eq_some_iff.mp hStop
  obtain ⟨more, -, rfl⟩ := map_eq_some_iff.mp hClose
  obtain ⟨last, -, rfl⟩ := map_eq_some_iff.mp hStop
  omega

theorem removeElements_fuel {lib : Library} (h : value.length < fuel) :
    removeElements lib tag (fuel + 1) value = removeElements lib tag fuel value := by
  induction fuel generalizing value with
  | zero => omega
  | succ fuel ih =>
    rw [removeElements, removeElements]
    split
    · rfl
    · rfl
    next start stop hElem =>
    cases hCut : cut value start stop with
    | none => rfl
    | some shorter =>
      have hShorter := length_cut (activeElement_lt hElem) hCut
      exact ih (by omega)

def activeTags : List Bytes :=
  ["script", "style", "iframe", "object", "embed", "svg", "math", "form", "video", "audio"].map text

def removeActiveHTMLElements (lib : Library) (value : Bytes) : Option Bytes :=
  activeTags.foldlM (fun value tag => removeElements lib tag (value.length + 1) value) value

/-! ## Raw HTML and reference definitions -/

def looksLikeRawHTML (inside : Bytes) : Bool :=
  match trimSpace inside with
  | [] => false
  | first :: rest =>
    match if first = byte '/' then trimSpace rest else first :: rest with
    | [] => false
    | first :: _ => first = byte '!' || first = byte '?' ||
        (byte 'A' ≤ first && first ≤ byte 'Z') || (byte 'a' ≤ first && first ≤ byte 'z')

def commentOpening : Bytes := text "<!--"

/-- The bytes dropped at the front of a value: all of them for a comment that is not closed. -/
def rawHTML (value : Bytes) : Option Nat :=
  if commentOpening.isPrefixOf value then
    some (((index (text "-->") (value.drop 4)).map (4 + · + 3)).getD value.length)
  else match value with
    | [] => none
    | b :: rest =>
      if b = byte '<' then
        (index [byte '>'] rest).bind fun stop => if looksLikeRawHTML (rest.take stop) then some (stop + 2) else none
      else none

def dropHTML (value : Bytes) : Option (Bytes × Nat) := (rawHTML value).map ([], ·)

def stripRawHTML (value : Bytes) : Bytes := scan dropHTML 0 value

/-- `strings.SplitAfter(value, "\n")`. -/
def splitAfter : Bytes → List Bytes
  | [] => [[]]
  | b :: rest =>
    if b = byte '\n' then [b] :: splitAfter rest
    else match splitAfter rest with
      | [] => [[b]]
      | line :: lines => (b :: line) :: lines

def isReferenceDefinition (line : Bytes) : Bool :=
  let candidate := line.dropWhile fun b => b = byte ' ' || b = byte '\t'
  line.length - candidate.length ≤ 3 && candidate.head? = some (byte '[') &&
    (index (text "]:") candidate).any fun closing => 1 < closing

def stripReferenceDefinitions (value : Bytes) : Bytes :=
  ((splitAfter value).filter fun line => !isReferenceDefinition line).flatten

/-! ## Destinations -/

/-- `findUnescaped` from the given position on. -/
def findUnescaped (target : UInt8) : Nat → Bytes → Option Nat
  | _, [] => none
  | position, b :: rest =>
    if b = byte '\\' then match rest with
      | [] => none
      | _ :: more => findUnescaped target (position + 2) more
    else if b = target then some position
    else findUnescaped target (position + 1) rest

/-- `findClosingParenthesis` from the given position on, at the given depth. -/
def findClosing : Nat → Nat → Bytes → Option Nat
  | _, _, [] => none
  | depth, position, b :: rest =>
    if b = byte '\\' then match rest with
      | [] => none
      | _ :: more => findClosing depth (position + 2) more
    else if b = byte '(' then findClosing (depth + 1) (position + 1) rest
    else if b = byte ')' then if depth ≤ 1 then some position else findClosing (depth - 1) (position + 1) rest
    else findClosing depth (position + 1) rest

def firstSegment (destination : Bytes) : Bytes := destination.takeWhile (· ≠ byte '/')

def safeMarkdownDestination (lib : Library) (raw : Bytes) : Option Bytes :=
  let trimmed := trimSpace raw
  let bare :=
    if trimmed.head? = some (byte '<') ∧ trimmed.getLast? = some (byte '>') then
      trimSpace (trimmed.drop 1).dropLast
    else match indexFunc isSpaceRune trimmed with
      | some split => trimmed.take split
      | none => trimmed
  let destination := lib.unescapeString (bare.filter (· ≠ byte '\\'))
  if destination = [] || (indexFunc isControlOrSpace destination).isSome || (text "//").isPrefixOf destination then none
  else (lib.parseScheme destination).bind fun scheme =>
    let scheme := lib.toLower scheme
    if scheme = [] then
      if (firstSegment destination).contains (byte ':') then none else some destination
    else if scheme = text "https" ∨ scheme = text "mailto" then some destination
    else none

/-- A construct with a label at the front of a value: what stands between its brackets and between its
parentheses, and its length. -/
structure Inline where
  image : Bool
  label : Bytes
  raw : Bytes
  length : Nat

/-- The start of the label of an image or of a link, and whether it is an image. -/
def labelStart : Bytes → Option (Bool × Nat)
  | a :: b :: _ =>
    if a = byte '!' ∧ b = byte '[' then some (true, 2) else if a = byte '[' then some (false, 1) else none
  | [a] => if a = byte '[' then some (false, 1) else none
  | [] => none

def labelEnd (value : Bytes) (start : Nat) : Option Nat := findUnescaped (byte ']') start (value.drop start)

/-- `![label](destination)` or `[label](destination)`. -/
def inlineAt (value : Bytes) : Option Inline := do
  let (image, start) ← labelStart value
  let stop ← labelEnd value start
  if value[stop + 1]? = some (byte '(') then do
    let close ← findClosing 1 (stop + 2) (value.drop (stop + 2))
    some ⟨image, (value.take stop).drop start, (value.take close).drop (stop + 2), close + 1⟩
  else none

/-- What is written for an inline construct: a link whose destination is safe, and otherwise the label. -/
def Inline.written (lib : Library) (c : Inline) : Bytes :=
  match if c.image then none else safeMarkdownDestination lib c.raw with
  | some destination => byte '[' :: c.label ++ text "](" ++ destination ++ [byte ')']
  | none => c.label

/-- What is written for the other constructs, which lose everything but their label: a reference
`[label][name]`, and an image without a destination. -/
def labelOnly (value : Bytes) : Option (Bytes × Nat) := do
  let (image, start) ← labelStart value
  let stop ← labelEnd value start
  let label := (value.take stop).drop start
  match if value[stop + 1]? = some (byte '[') then findUnescaped (byte ']') (stop + 2) (value.drop (stop + 2))
    else none with
  | some close => some (label, close + 1)
  | none => if image then some (label, stop + 1) else none

/-- What the pass writes for the construct at the front of a value, and the length of the construct. -/
def construct (lib : Library) (value : Bytes) : Option (Bytes × Nat) :=
  match if value.head? = some (byte '`') then codeSpan value else none with
  | some length => some (value.take length, length)
  | none => match inlineAt value with
    | some c => some (c.written lib, c.length)
    | none => labelOnly value

def sanitizeMarkdownDestinations (lib : Library) (value : Bytes) : Bytes := scan (construct lib) 0 value

def sanitize (lib : Library) (value : Bytes) : Option Bytes :=
  let code := protectMarkdownCode value
  (removeActiveHTMLElements lib code.1).map fun active =>
    restore (marker value) code.2
      (sanitizeMarkdownDestinations lib (stripReferenceDefinitions (stripRawHTML active)))

end Proctor.Markdown
