import Proctor.Json.Utf8

/-! # The JSON grammar of RFC 8259

`Tree` is the parse tree of a JSON text with the spelling of its strings and numbers kept and its
whitespace dropped. `Spells tree text` says that the grammar derives the characters `text` for
`tree`, and `JsonText` is the start symbol. Nothing here decides which texts a program accepts. -/
namespace Json

inductive Escape where
  | quote | backslash | slash | backspace | formFeed | newline | carriageReturn | tab
  deriving DecidableEq, Repr

def Escape.letter : Escape → Char
  | .quote => '"'
  | .backslash => '\\'
  | .slash => '/'
  | .backspace => 'b'
  | .formFeed => 'f'
  | .newline => 'n'
  | .carriageReturn => 'r'
  | .tab => 't'

def Escape.scalar : Escape → Char
  | .quote => '"'
  | .backslash => '\\'
  | .slash => '/'
  | .backspace => '\x08'
  | .formFeed => '\x0c'
  | .newline => '\n'
  | .carriageReturn => '\r'
  | .tab => '\t'

inductive Item where
  | raw (c : Char)
  | short (e : Escape)
  | unit (u : Nat)
  deriving DecidableEq, Repr

inductive Tree where
  | null
  | bool (b : Bool)
  | num (spelling : List Char)
  | str (items : List Item)
  | arr (elements : List Tree)
  | obj (members : List (List Item × Tree))

def isWhitespace (c : Char) : Bool := c == ' ' || c == '\t' || c == '\n' || c == '\r'

def Ws (text : List Char) : Prop := ∀ c ∈ text, isWhitespace c = true

def hexDigit (c : Char) : Option Nat :=
  if '0'.toNat ≤ c.toNat && c.toNat ≤ '9'.toNat then some (c.toNat - '0'.toNat)
  else if 'a'.toNat ≤ c.toNat && c.toNat ≤ 'f'.toNat then some (c.toNat - 'a'.toNat + 10)
  else if 'A'.toNat ≤ c.toNat && c.toNat ≤ 'F'.toNat then some (c.toNat - 'A'.toNat + 10)
  else none

def hexUnit (a b c d : Char) : Option Nat := do
  let a ← hexDigit a
  let b ← hexDigit b
  let c ← hexDigit c
  let d ← hexDigit d
  return ((a * 16 + b) * 16 + c) * 16 + d

def ItemSpells : Item → List Char → Prop
  | .raw c, text => text = [c] ∧ 0x20 ≤ c.toNat ∧ c ≠ '"' ∧ c ≠ '\\'
  | .short e, text => text = ['\\', e.letter]
  | .unit u, text => ∃ a b c d, text = ['\\', 'u', a, b, c, d] ∧ hexUnit a b c d = some u

def ItemsSpell : List Item → List Char → Prop
  | [], text => text = []
  | item :: items, text => ∃ a b, text = a ++ b ∧ ItemSpells item a ∧ ItemsSpell items b

def StringSpells (items : List Item) (text : List Char) : Prop :=
  ∃ body, text = '"' :: body ++ ['"'] ∧ ItemsSpell items body

def Digits (text : List Char) : Prop := text ≠ [] ∧ ∀ c ∈ text, c.isDigit = true

def IntegerPart (text : List Char) : Prop :=
  text = ['0'] ∨ Digits text ∧ text.head? ≠ some '0'

def FractionPart (text : List Char) : Prop := text = [] ∨ ∃ ds, text = '.' :: ds ∧ Digits ds

def ExponentPart (text : List Char) : Prop :=
  text = [] ∨ ∃ e sign ds, text = e :: sign ++ ds ∧ (e = 'e' ∨ e = 'E') ∧
    (sign = [] ∨ sign = ['+'] ∨ sign = ['-']) ∧ Digits ds

def NumberSpelling (text : List Char) : Prop :=
  ∃ sign int frac exp, text = sign ++ int ++ frac ++ exp ∧ (sign = [] ∨ sign = ['-']) ∧
    IntegerPart int ∧ FractionPart frac ∧ ExponentPart exp

def Padded (value : List Char → Prop) (text : List Char) : Prop :=
  ∃ before body after, text = before ++ body ++ after ∧ Ws before ∧ Ws after ∧ value body

mutual
def Spells : Tree → List Char → Prop
  | .null, text => text = ['n', 'u', 'l', 'l']
  | .bool true, text => text = ['t', 'r', 'u', 'e']
  | .bool false, text => text = ['f', 'a', 'l', 's', 'e']
  | .num spelling, text => text = spelling ∧ NumberSpelling spelling
  | .str items, text => StringSpells items text
  | .arr elements, text => ∃ body, text = '[' :: body ++ [']'] ∧
      (elements = [] ∧ Ws body ∨ ElementsSpell elements body)
  | .obj members, text => ∃ body, text = '\x7b' :: body ++ ['\x7d'] ∧
      (members = [] ∧ Ws body ∨ MembersSpell members body)

def ElementsSpell : List Tree → List Char → Prop
  | [], _ => False
  | element :: elements, text =>
    elements = [] ∧ Padded (Spells element) text ∨
      ∃ a b, text = a ++ ',' :: b ∧ Padded (Spells element) a ∧ ElementsSpell elements b

def MembersSpell : List (List Item × Tree) → List Char → Prop
  | [], _ => False
  | (key, value) :: members, text =>
    ∃ k v, Padded (StringSpells key) k ∧ Padded (Spells value) v ∧
      (members = [] ∧ text = k ++ ':' :: v ∨
        ∃ b, text = k ++ ':' :: v ++ ',' :: b ∧ MembersSpell members b)
end

theorem Tree.induct {motive : Tree → Prop} (null : motive .null) (bool : ∀ b, motive (.bool b))
    (num : ∀ spelling, motive (.num spelling)) (str : ∀ items, motive (.str items))
    (arr : ∀ elements, (∀ e ∈ elements, motive e) → motive (.arr elements))
    (obj : ∀ members, (∀ m ∈ members, motive m.2) → motive (.obj members)) (tree : Tree) :
    motive tree := by
  refine @Tree.rec motive (fun elements => ∀ e ∈ elements, motive e)
    (fun members => ∀ m ∈ members, motive m.2) (fun member => motive member.2)
    null bool num str arr obj (by simp) ?_ (by simp) ?_ (fun _ _ h => h) tree
  · exact fun _ _ hHead hTail => List.forall_mem_cons.mpr ⟨hHead, hTail⟩
  · exact fun _ _ hHead hTail => List.forall_mem_cons.mpr ⟨hHead, hTail⟩

def JsonText (tree : Tree) (text : List Char) : Prop := Padded (Spells tree) text

end Json
