import Proctor.Json.Grammar

/-! # Integer documents and what they denote

A `Doc` is a JSON document whose strings are decoded and whose numbers are integers, with object
members in the order of the text. `Tree.doc?` reads one off a parse tree and fails exactly where a
string has an unpaired surrogate escape or a number is not a plain decimal integer. `Doc.value`
forgets the member order: an object becomes a map from keys. `Doc.text` is the compact spelling with
the escapes of `JSON.stringify`, and `Doc.sort` orders the members of every object by key. -/
namespace Json

def isHighSurrogate (u : Nat) : Bool := 0xd800 ≤ u && u ≤ 0xdbff

def isLowSurrogate (u : Nat) : Bool := 0xdc00 ≤ u && u ≤ 0xdfff

def surrogatePair (high low : Nat) : Char :=
  Char.ofNat (0x10000 + (high - 0xd800) * 0x400 + (low - 0xdc00))

/-- The scalar values of a string, unless a surrogate escape in it is unpaired. -/
@[grind] def scalars : List Item → Option (List Char)
  | [] => some []
  | .raw c :: items => (scalars items).map (c :: ·)
  | .short e :: items => (scalars items).map (e.scalar :: ·)
  | .unit u :: items =>
    if isHighSurrogate u then
      match items with
      | .unit low :: items =>
        if isLowSurrogate low then (scalars items).map (surrogatePair u low :: ·) else none
      | _ => none
    else if isLowSurrogate u then none
    else (scalars items).map (Char.ofNat u :: ·)

def natural (digits : List Char) : Option Nat :=
  if digits ≠ [] ∧ digits.all Char.isDigit then some (Nat.ofDigitChars 10 digits 0) else none

def integer : List Char → Option Int
  | '-' :: digits => (natural digits).map fun n : Nat => -(n : Int)
  | digits => (natural digits).map fun n : Nat => (n : Int)

inductive Doc where
  | null
  | bool (b : Bool)
  | int (n : Int)
  | str (s : List Char)
  | arr (elements : List Doc)
  | obj (members : List (List Char × Doc))

mutual
@[grind] def Tree.doc? : Tree → Option Doc
  | .null => some .null
  | .bool b => some (.bool b)
  | .num spelling => (integer spelling).map .int
  | .str items => (scalars items).map .str
  | .arr elements => (elementDocs? elements).map .arr
  | .obj members => (memberDocs? members).map .obj

@[grind] def elementDocs? : List Tree → Option (List Doc)
  | [] => some []
  | element :: elements => do
    let head ← element.doc?
    let tail ← elementDocs? elements
    return head :: tail

@[grind] def memberDocs? : List (List Item × Tree) → Option (List (List Char × Doc))
  | [] => some []
  | (key, value) :: members => do
    let name ← scalars key
    let head ← value.doc?
    let tail ← memberDocs? members
    return (name, head) :: tail
end

/-- A JSON value: arrays are sequences and objects are maps from decoded keys. -/
inductive Value where
  | null
  | bool (b : Bool)
  | int (n : Int)
  | str (s : List Char)
  | arr (elements : List Value)
  | obj (members : List Char → Option Value)

mutual
@[grind] def Doc.value : Doc → Value
  | .null => .null
  | .bool b => .bool b
  | .int n => .int n
  | .str s => .str s
  | .arr elements => .arr (elementValues elements)
  | .obj members => .obj (memberValues members)

@[grind] def elementValues : List Doc → List Value
  | [] => []
  | element :: elements => element.value :: elementValues elements

@[grind] def memberValues : List (List Char × Doc) → List Char → Option Value
  | [], _ => none
  | (key, doc) :: members, name => if name = key then some doc.value else memberValues members name
end

def keyLe (a b : List Char × Doc) : Prop := utf8 a.1 ≤ utf8 b.1

instance : DecidableRel keyLe := fun a b => inferInstanceAs (Decidable (utf8 a.1 ≤ utf8 b.1))

instance : Std.Total keyLe := ⟨fun _ _ => Std.Total.total (r := (· ≤ · : Bytes → Bytes → Prop)) _ _⟩

instance : IsTrans (List Char × Doc) keyLe := ⟨fun _ _ _ hab hbc => List.le_trans hab hbc⟩

mutual
@[grind] def Doc.sort : Doc → Doc
  | .null => .null
  | .bool b => .bool b
  | .int n => .int n
  | .str s => .str s
  | .arr elements => .arr (sortElements elements)
  | .obj members => .obj ((sortMembers members).insertionSort keyLe)

@[grind] def sortElements : List Doc → List Doc
  | [] => []
  | element :: elements => element.sort :: sortElements elements

@[grind] def sortMembers : List (List Char × Doc) → List (List Char × Doc)
  | [] => []
  | (key, doc) :: members => (key, doc.sort) :: sortMembers members
end

section Conditions

variable (keys : List (List Char) → Prop) (int : Int → Prop)

mutual
/-- Every object's list of keys meets `keys` and every number meets `int`. -/
def Doc.Every : Doc → Prop
  | .int n => int n
  | .arr elements => EveryElement elements
  | .obj members => keys (members.map Prod.fst) ∧ EveryMember members
  | _ => True

def EveryElement : List Doc → Prop
  | [] => True
  | element :: elements => element.Every ∧ EveryElement elements

def EveryMember : List (List Char × Doc) → Prop
  | [] => True
  | (_, doc) :: members => doc.Every ∧ EveryMember members
end

end Conditions

def Doc.Distinct (doc : Doc) : Prop := doc.Every List.Nodup fun _ => True

mutual
@[grind] def Doc.depth : Doc → Nat
  | .arr elements => elementsDepth elements + 1
  | .obj members => membersDepth members + 1
  | _ => 0

@[grind] def elementsDepth : List Doc → Nat
  | [] => 0
  | element :: elements => max element.depth (elementsDepth elements)

@[grind] def membersDepth : List (List Char × Doc) → Nat
  | [] => 0
  | (_, doc) :: members => max doc.depth (membersDepth members)
end

def decimal (n : Int) : List Char :=
  if n < 0 then '-' :: Nat.toDigits 10 n.natAbs else Nat.toDigits 10 n.natAbs

/-- The item that `JSON.stringify` writes for a scalar value. -/
def canonicalItem (c : Char) : Item :=
  if c = '"' then .short .quote
  else if c = '\\' then .short .backslash
  else if c = '\x08' then .short .backspace
  else if c = '\x0c' then .short .formFeed
  else if c = '\n' then .short .newline
  else if c = '\r' then .short .carriageReturn
  else if c = '\t' then .short .tab
  else if c.toNat < 0x20 then .unit c.toNat
  else .raw c

def itemText : Item → List Char
  | .raw c => [c]
  | .short e => ['\\', e.letter]
  | .unit u => ['\\', 'u', '0', '0', Nat.digitChar (u / 16), Nat.digitChar (u % 16)]

def quoted (s : List Char) : List Char :=
  '"' :: s.flatMap (fun c => itemText (canonicalItem c)) ++ ['"']

def separated : List (List Char) → List Char
  | [] => []
  | item :: items => item ++ items.flatMap (',' :: ·)

mutual
@[grind] def Doc.text : Doc → List Char
  | .null => ['n', 'u', 'l', 'l']
  | .bool true => ['t', 'r', 'u', 'e']
  | .bool false => ['f', 'a', 'l', 's', 'e']
  | .int n => decimal n
  | .str s => quoted s
  | .arr elements => '[' :: separated (elementTexts elements) ++ [']']
  | .obj members => '\x7b' :: separated (memberTexts members) ++ ['\x7d']

@[grind] def elementTexts : List Doc → List (List Char)
  | [] => []
  | element :: elements => element.text :: elementTexts elements

@[grind] def memberTexts : List (List Char × Doc) → List (List Char)
  | [] => []
  | (key, doc) :: members => (quoted key ++ ':' :: doc.text) :: memberTexts members
end

end Json
