import Proctor.Json.Canonical

/-! # What `json.Marshal` writes

The standard library's encoder writes no whitespace and keeps the order of the members it is given:
field order for a struct, sorted keys for a map. Strings are spelled as `JSON.stringify` spells them,
except that `<`, `>`, `&` and the two line separators are written as code units. -/
namespace Json

def isHtmlEscaped (c : Char) : Bool :=
  c == '<' || c == '>' || c == '&' || c == '\u2028' || c == '\u2029'

def marshalItem (c : Char) : Item :=
  if isHtmlEscaped c then .unit c.toNat else canonicalItem c

def unitText (u : Nat) : List Char :=
  ['\\', 'u', Nat.digitChar (u / 4096), Nat.digitChar (u / 256 % 16), Nat.digitChar (u / 16 % 16),
    Nat.digitChar (u % 16)]

def marshalChar (c : Char) : List Char :=
  if isHtmlEscaped c then unitText c.toNat else itemText (canonicalItem c)

def marshalString (s : List Char) : List Char := '"' :: s.flatMap marshalChar ++ ['"']

def Doc.marshal (doc : Doc) : Bytes := utf8 (doc.textWith marshalString)

theorem isHtmlEscaped_iff (c : Char) : isHtmlEscaped c ↔
    c = '<' ∨ c = '>' ∨ c = '&' ∨ c = '\u2028' ∨ c = '\u2029' := by
  simp only [isHtmlEscaped, Bool.or_eq_true, beq_iff_eq, or_assoc]

theorem scalars_unit {u : Nat} (hHigh : isHighSurrogate u = false) (hLow : isLowSurrogate u = false)
    (items : List Item) : scalars (.unit u :: items) = (scalars items).map (Char.ofNat u :: ·) := by
  rw [scalars.eq_def]
  simp [hHigh, hLow]

theorem scalars_marshalItem (c : Char) (items : List Item) :
    scalars (marshalItem c :: items) = (scalars items).map (c :: ·) := by
  unfold marshalItem
  split
  · rename_i hc
    have hUnit : isHighSurrogate c.toNat = false ∧ isLowSurrogate c.toNat = false := by
      rcases (isHtmlEscaped_iff c).mp hc with rfl | rfl | rfl | rfl | rfl <;> decide
    rw [scalars_unit hUnit.1 hUnit.2, Char.ofNat_toNat]
  · exact scalars_canonicalItem c items

theorem scalars_marshal (s : List Char) : scalars (s.map marshalItem) = some s := by
  induction s with
  | nil => rfl
  | cons c s ih => rw [List.map_cons, scalars_marshalItem, ih]; rfl

theorem unitText_spells {u : Nat} (hu : u < 65536) : ItemSpells (.unit u) (unitText u) := by
  refine ⟨_, _, _, _, rfl, ?_⟩
  simp only [hexUnit, hexDigit_digitChar (show u / 4096 < 16 by omega),
    hexDigit_digitChar (show u / 256 % 16 < 16 by omega),
    hexDigit_digitChar (show u / 16 % 16 < 16 by omega),
    hexDigit_digitChar (show u % 16 < 16 by omega)]
  exact congrArg some (show (((u / 4096) * 16 + u / 256 % 16) * 16 + u / 16 % 16) * 16 + u % 16 = u by
    omega)

theorem marshalItem_spells (c : Char) : ItemSpells (marshalItem c) (marshalChar c) := by
  unfold marshalItem marshalChar
  split
  · rename_i hc
    apply unitText_spells
    rcases (isHtmlEscaped_iff c).mp hc with rfl | rfl | rfl | rfl | rfl <;> decide
  · exact canonicalItem_spells c

theorem marshalString_spells (s : List Char) : StringSpells (s.map marshalItem) (marshalString s) := by
  refine ⟨_, rfl, ?_⟩
  induction s with
  | nil => rfl
  | cons c s ih => exact ⟨_, _, rfl, marshalItem_spells c, ih⟩

theorem Doc.marshal_text (doc : Doc) : ∃ text tree, doc.marshal = utf8 text ∧ JsonText tree text ∧
    tree.doc? = some doc :=
  ⟨_, _, rfl, Padded.of_body (doc.spells_treeWith marshalString_spells),
    doc.doc?_treeWith scalars_marshal⟩

end Json
