import Proctor.Json.Marshal
import Proctor.Json.Parse

/-! # Byte strings and what the encoder makes of them

A Go string is a byte string. `runes` ranges over it as the language does: a byte that begins no
encoding counts as a rune of its own, and the encoder writes the replacement character for it.
`Writes` relates a text that is written piece by piece to the document it is read back as. -/
namespace Json

open List

/-- The scalar value encoded at the front, as `utf8.DecodeRune` finds it. -/
def decodeRune (data : Bytes) : Option Char := data.toByteArray.utf8DecodeChar? 0

/-- The runes after the first bytes, which belong to the rune before. -/
@[grind] def runesFrom : Nat → Bytes → List (Option Char)
  | _, [] => []
  | skipped + 1, _ :: rest => runesFrom skipped rest
  | 0, byte :: rest => match decodeRune (byte :: rest) with
    | some c => some c :: runesFrom (c.utf8Size - 1) rest
    | none => none :: runesFrom 0 rest

def runes (data : Bytes) : List (Option Char) := runesFrom 0 data

/-- The bytes that the runes take. -/
def runesLength (runes : List (Option Char)) : Nat := (runes.map fun r => r.elim 1 Char.utf8Size).sum

/-- The text with the replacement character in place of what is no encoding. -/
def repaired (data : Bytes) : List Char := (runes data).map (·.getD '\ufffd')

theorem decodeRune_encode (c : Char) (rest : Bytes) :
    decodeRune (String.utf8EncodeChar c ++ rest) = some c := by
  have hChar : (String.utf8EncodeChar c).toByteArray.utf8DecodeChar? 0 = some c := by
    simpa [List.utf8Encode] using utf8DecodeChar?_utf8Encode_singleton (c := c)
  rw [decodeRune, toByteArray_append]
  exact ByteArray.utf8DecodeChar?_append_eq_some hChar _

variable {data : Bytes} {text : List Char}

theorem decodeRune_eq_some {c : Char} (h : decodeRune data = some c) :
    ∃ rest, data = String.utf8EncodeChar c ++ rest := by
  have hFront := String.toByteArray_utf8EncodeChar_of_utf8DecodeChar?_eq_some h
  refine ⟨data.drop c.utf8Size, ?_⟩
  have hTake : String.utf8EncodeChar c = data.take c.utf8Size := by
    have hData := congrArg (fun bytes : ByteArray => bytes.data.toList) hFront
    simpa using hData
  rw [hTake, take_append_drop]

theorem runesFrom_length (front rest : Bytes) :
    runesFrom front.length (front ++ rest) = runesFrom 0 rest := by
  induction front with
  | nil => rfl
  | cons byte front ih => exact ih

theorem runes_encode (c : Char) (rest : Bytes) :
    runes (String.utf8EncodeChar c ++ rest) = some c :: runes rest := by
  obtain ⟨byte, more, hBytes⟩ := exists_cons_of_ne_nil (String.utf8EncodeChar_ne_nil (c := c))
  have hRune := decodeRune_encode c rest
  rw [hBytes, cons_append] at hRune
  have hSize : c.utf8Size - 1 = more.length := by
    rw [← String.length_utf8EncodeChar, hBytes, length_cons, Nat.add_sub_cancel]
  rw [hBytes, cons_append, runes, runesFrom, hRune]
  simp only [hSize, runesFrom_length, runes]

theorem runes_utf8 (text : List Char) : runes (utf8 text) = text.map some := by
  induction text with
  | nil => rfl
  | cons c text ih => rw [utf8_cons, runes_encode, ih, map_cons]

theorem utf8_of_runes (h : runes data = text.map some) : data = utf8 text := by
  induction text generalizing data with
  | nil =>
    cases data with
    | nil => rfl
    | cons byte rest =>
      rw [runes, runesFrom] at h
      split at h <;> cases h
  | cons c text ih =>
    cases data with
    | nil => cases h
    | cons byte rest =>
      have hFirst := h
      rw [runes, runesFrom] at hFirst
      split at hFirst
      · next d hRune =>
        obtain ⟨tail, hData⟩ := decodeRune_eq_some hRune
        rw [hData, runes_encode] at h
        obtain ⟨hSame, hRest⟩ := List.cons.inj h
        rw [hData, ih hRest, Option.some.inj hSame, utf8_cons]
      · cases (List.cons.inj hFirst).1

theorem repaired_utf8 (text : List Char) : repaired (utf8 text) = text := by
  rw [repaired, runes_utf8, map_map]
  exact map_id text

theorem utf8_repaired_of_clean (h : '\ufffd' ∉ repaired data) : utf8 (repaired data) = data := by
  refine (utf8_of_runes ?_).symm
  rw [repaired, map_map]
  refine (map_id _).symm.trans (map_congr_left fun rune hRune => ?_)
  cases rune with
  | none => exact absurd (mem_map.mpr ⟨none, hRune, rfl⟩) h
  | some c => rfl

theorem utf8_repaired_iff (data : Bytes) : utf8 (repaired data) = data ↔ utf8Valid data := by
  rw [utf8Valid_iff]
  constructor
  · intro h
    exact ⟨_, h.symm⟩
  · rintro ⟨text, rfl⟩
    rw [repaired_utf8]

/-! ## Written texts -/

def runeItem : Option Char → Item
  | none => .unit 0xfffd
  | some c => marshalItem c

def runeText : Option Char → List Char
  | none => unitText 0xfffd
  | some c => marshalChar c

/-- A string as `json.Marshal` writes it. -/
def stringText (data : Bytes) : List Char := '"' :: (runes data).flatMap runeText ++ ['"']

def objectText (members : List (Bytes × List Char)) : List Char :=
  '\x7b' :: separated (members.map fun m => stringText m.1 ++ ':' :: m.2) ++ ['\x7d']

def Writes (text : List Char) (doc : Doc) : Prop := ∃ tree, Spells tree text ∧ tree.doc? = some doc

theorem scalars_runeItem (runes : List (Option Char)) :
    scalars (runes.map runeItem) = some (runes.map (·.getD '\ufffd')) := by
  induction runes with
  | nil => rfl
  | cons rune runes ih =>
    cases rune with
    | none =>
      rw [map_cons, runeItem, scalars_unit (by decide) (by decide), ih]
      rfl
    | some c =>
      rw [map_cons, runeItem, scalars_marshalItem, ih]
      rfl

theorem stringText_spells (data : Bytes) : StringSpells ((runes data).map runeItem) (stringText data) := by
  refine ⟨_, rfl, ?_⟩
  induction runes data with
  | nil => rfl
  | cons rune runes ih =>
    refine ⟨_, _, rfl, ?_, ih⟩
    cases rune with
    | none => exact unitText_spells (by decide)
    | some c => exact marshalItem_spells c

theorem writes_string (data : Bytes) : Writes (stringText data) (.str (repaired data)) := by
  refine ⟨.str ((runes data).map runeItem), stringText_spells data, ?_⟩
  rw [Tree.doc?, scalars_runeItem]
  rfl

theorem writes_int (n : Int) : Writes (decimal n) (.int n) := by
  refine ⟨.num (decimal n), ⟨rfl, numberSpelling_decimal n⟩, ?_⟩
  rw [Tree.doc?, integer_decimal]
  rfl

/-- A member of an object that is written: its key, the text of its value and what that is read as. -/
structure Member where
  key : Bytes
  text : List Char
  doc : Doc
  writes : Writes text doc

theorem writes_object (members : List Member) :
    Writes (objectText (members.map fun m => (m.key, m.text)))
      (.obj (members.map fun m => (repaired m.key, m.doc))) := by
  obtain ⟨trees, hBodies, hDocs⟩ : ∃ trees,
      Forall₂ MemberBody trees (members.map fun m => stringText m.key ++ ':' :: m.text) ∧
        Forall₂ ReadAs trees (members.map fun m => (repaired m.key, m.doc)) := by
    induction members with
    | nil => exact ⟨[], .nil, .nil⟩
    | cons first rest ih =>
      obtain ⟨tree, hSpells, hDoc⟩ := first.writes
      obtain ⟨trees, hBodies, hDocs⟩ := ih
      exact ⟨((runes first.key).map runeItem, tree) :: trees,
        .cons (.of_spells (stringText_spells _) hSpells) hBodies, .cons ⟨scalars_runeItem _, hDoc⟩ hDocs⟩
  rw [objectText, map_map]
  refine ⟨.obj trees, spells_obj_iff.mpr ⟨_, rfl, left_separated hBodies⟩, ?_⟩
  rw [Tree.doc?, memberDocs?_eq_some_iff.mpr hDocs]
  rfl

theorem stringText_plain (h : ∀ c ∈ text, 0x20 ≤ c.toNat ∧ c ≠ '"' ∧ c ≠ '\\' ∧
    isHtmlEscaped c = false) : stringText (utf8 text) = '"' :: text ++ ['"'] := by
  have hText : (text.map some).flatMap runeText = text := by
    rw [flatMap_map]
    refine (flatMap_congr fun c hc => ?_).trans (flatMap_singleton' text)
    obtain ⟨hLow, hQuote, hSlash, hHtml⟩ := h c hc
    have hItem : canonicalItem c = .raw c := by
      have hCtl : ∀ d : Char, d.toNat < 0x20 → c ≠ d := by
        rintro d hd rfl
        omega
      simp [canonicalItem, hQuote, hSlash, hCtl '\x08' (by decide), hCtl '\x0c' (by decide),
        hCtl '\n' (by decide), hCtl '\r' (by decide), hCtl '\t' (by decide), not_lt.mpr hLow]
    simp [runeText, marshalChar, hHtml, hItem, itemText]
  rw [stringText, runes_utf8, hText]

/-! ## Sizes -/

def runeSize : Option Char → Nat
  | none => 6
  | some c =>
    if isHtmlEscaped c then 6
    else if c ∈ ['"', '\\', '\x08', '\x0c', '\n', '\r', '\t'] then 2
    else if c.toNat < 0x20 then 6
    else c.utf8Size

def stringSize (data : Bytes) : Nat := ((runes data).map runeSize).sum

theorem size_unitText {u : Nat} (h : u < 65536) : size (unitText u) = 6 := by
  have hDigit : ∀ k < 16, (Nat.digitChar k).utf8Size = 1 := by decide
  simp only [unitText, size_cons, size_nil, hDigit _ (show u / 4096 < 16 by omega),
    hDigit _ (show u / 256 % 16 < 16 by omega), hDigit _ (show u / 16 % 16 < 16 by omega),
    hDigit _ (show u % 16 < 16 by omega)]
  decide

theorem size_runeText (rune : Option Char) : size (runeText rune) = runeSize rune := by
  cases rune with
  | none => exact size_unitText (by decide)
  | some c =>
    rw [runeText, marshalChar, runeSize]
    split
    · next hHtml =>
      apply size_unitText
      rcases (isHtmlEscaped_iff c).mp hHtml with rfl | rfl | rfl | rfl | rfl <;> decide
    split
    · next hListed =>
      simp only [mem_cons, not_mem_nil, or_false] at hListed
      rcases hListed with rfl | rfl | rfl | rfl | rfl | rfl | rfl <;> decide
    next hListed =>
    simp only [mem_cons, not_mem_nil, or_false, not_or] at hListed
    simp only [canonicalItem, hListed, if_false]
    split
    · next hCtl =>
      have hAll : ∀ k < 0x20, size (itemText (.unit k)) = 6 := by decide
      exact hAll _ hCtl
    · rw [itemText, size_cons, size_nil, Nat.add_zero]

theorem size_stringText (data : Bytes) : size (stringText data) = stringSize data + 2 := by
  have hRunes : ∀ rs : List (Option Char), size (rs.flatMap runeText) = (rs.map runeSize).sum := by
    intro rs
    induction rs with
    | nil => rfl
    | cons rune rest ih => rw [flatMap_cons, size_append, ih, size_runeText, map_cons, sum_cons]
  have hQuote : Char.utf8Size '"' = 1 := by decide
  rw [stringText, size_append, size_cons, hRunes, size_cons, size_nil, stringSize]
  omega

theorem size_objectText (members : List (Bytes × List Char)) : size (objectText members) =
    (members.map fun m => stringSize m.1 + 3 + size m.2).sum + (members.length - 1) + 2 := by
  have hColon : Char.utf8Size ':' = 1 := by decide
  have hOpen : Char.utf8Size '\x7b' = 1 := by decide
  have hClose : Char.utf8Size '\x7d' = 1 := by decide
  have hMember : ∀ m : Bytes × List Char,
      size (stringText m.1 ++ ':' :: m.2) = stringSize m.1 + 3 + size m.2 := by
    intro m
    rw [size_append, size_stringText, size_cons]
    omega
  rw [objectText, size_append, size_cons, size_separated, size_cons, size_nil, hOpen, hClose,
    map_map, length_map]
  simp only [Function.comp_def, hMember]
  omega

theorem Writes.decode {doc : Doc} (h : Writes text doc) :
    ∃ tail, Json.decode (utf8 text) = some (doc, tail) ∧ Ws tail := by
  obtain ⟨tree, hSpells, hDoc⟩ := h
  exact decode_complete (Padded.of_body hSpells) hDoc

end Json
