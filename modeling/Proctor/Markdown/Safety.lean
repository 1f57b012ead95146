import Proctor.Markdown.Sanitize

/-! # When the sanitized text is safe

The passes of `Sanitize` run once, one after the other, so that what one of them removes can bring the
pieces of a construct together that an earlier one would have removed. A text of plain parts and of HTML
that does not stand inside other HTML is sanitized to a safe text, which another round does not change. -/
namespace Proctor.Markdown

open Json (Bytes utf8 runes repaired)
open List

variable {lib : Library} {value : Bytes}

def outsideCode (value : Bytes) : Bytes := (protectMarkdownCode value).1

/-- Nothing in the text that a renderer could execute, follow or fetch. -/
structure Clean (lib : Library) (value : Bytes) : Prop where
  html : ∀ before inside after, value = before ++ byte '<' :: (inside ++ byte '>' :: after) →
    byte '>' ∉ inside → looksLikeRawHTML inside = false
  comments : ∀ before after, value ≠ before ++ (commentOpening ++ after)
  references : ∀ line ∈ splitAfter value, isReferenceDefinition line = false
  images : ∀ before rest c, value = before ++ rest → inlineAt rest = some c → c.image = false
  links : ∀ before rest c, value = before ++ rest → inlineAt rest = some c → c.image = false →
    (safeMarkdownDestination lib c.raw).isSome = true

/-- `Sanitize` returns a text that is safe outside its code and that it does not change again. -/
def Safe (lib : Library) (value : Bytes) : Prop :=
  ∃ sanitized, sanitize lib value = some sanitized ∧ Clean lib (outsideCode sanitized) ∧
    sanitize lib sanitized = some sanitized

/-- Every `<` that a scan meets begins a tag or a comment that `stripRawHTML` drops whole, and what it does
not drop has no `[`. -/
def flatFrom : Nat → Bytes → Bool
  | _, [] => true
  | skipped + 1, _ :: rest => flatFrom skipped rest
  | 0, b :: rest => match rawHTML (b :: rest) with
    | some length => flatFrom (length - 1) rest
    | none => b ≠ byte '<' && b ≠ byte '[' && flatFrom 0 rest

/-- A text without code and active elements, whose tags and comments are the only constructs. -/
@[mk_iff] structure Flat (lib : Library) (value : Bytes) : Prop where
  code : byte '`' ∉ value
  active : ∀ name ∈ activeTags, activeElement lib name value = none
  html : flatFrom 0 value = true

instance (lib : Library) (value : Bytes) : Decidable (Flat lib value) := decidable_of_iff' _ (flat_iff lib value)

/-- Text in which no pass finds a construct. -/
structure Inert (value : Bytes) : Prop where
  code : byte '`' ∉ value
  opening : byte '<' ∉ value
  bracket : byte '[' ∉ value

/-! ## Code and active elements -/

theorem protectMarkdownCode_plain (h : byte '`' ∉ value) : protectMarkdownCode value = (value, []) := by
  unfold protectMarkdownCode
  generalize marker value = marker
  induction value with
  | nil => rfl
  | cons b rest ih =>
    have hFirst : b ≠ byte '`' := fun hSame => h (hSame ▸ mem_cons_self)
    rw [protectFrom, if_pos hFirst, ih (not_mem_of_not_mem_cons h)]

theorem removeActiveHTMLElements_none (h : ∀ name ∈ activeTags, activeElement lib name value = none) :
    removeActiveHTMLElements lib value = some value := by
  have hRun (names : List Bytes) (hNames : ∀ name ∈ names, activeElement lib name value = none) :
      names.foldlM (fun value tag => removeElements lib tag (value.length + 1) value) value = some value := by
    induction names with
    | nil => rfl
    | cons name names ih =>
      obtain ⟨hName, hNames⟩ := forall_mem_cons.mp hNames
      rw [foldlM_cons, removeElements, hName]
      exact ih hNames
  exact hRun activeTags h

theorem not_isPrefixOf_cons {a b : UInt8} {pattern rest : Bytes} (h : a ≠ b) :
    ¬ (a :: pattern).isPrefixOf (b :: rest) = true := by
  rw [List.isPrefixOf_cons_cons, Bool.and_eq_true, beq_iff_eq]
  exact fun hBoth => h hBoth.1

theorem findHTMLTag_none {name : Bytes} (skipped position : Nat) (h : byte '<' ∉ value) :
    findHTMLTag (byte '<' :: name) skipped position value = none := by
  induction value generalizing skipped position with
  | nil => rw [findHTMLTag]
  | cons b rest ih =>
    have hRest := not_mem_of_not_mem_cons h
    have hFirst : byte '<' ≠ b := fun hSame => h (hSame ▸ mem_cons_self)
    cases skipped with
    | zero => rw [findHTMLTag, if_neg (not_isPrefixOf_cons hFirst), ih _ _ hRest]
    | succ skipped => rw [findHTMLTag, ih _ _ hRest]

theorem lowerRune_ne {c : Char} (h : c ≠ '<') : lib.lowerRune c ≠ '<' := by
  unfold Library.lowerRune
  split
  · unfold Char.toLower
    split
    · next hUpper =>
      intro hSame
      have hLow : 65 ≤ c.val.toNat ∧ c.val.toNat ≤ 90 := by
        rwa [ge_iff_le, UInt32.le_iff_toNat_le, UInt32.le_iff_toNat_le] at hUpper
      have hValue : (c.val.toNat + 32) % 2 ^ 32 = 60 := congrArg (fun c : Char => c.val.toNat) hSame
      omega
    · exact h
  · exact lib.lowerBeyond_ne c

theorem mem_of_byte_mem_utf8 {c : Char} {t : Text} (hc : c.toNat < 128) (h : byte c ∈ utf8 t) : c ∈ t := by
  obtain ⟨d, hd, hByte⟩ := mem_flatMap.mp h
  by_cases hAscii : d.toNat < 128
  · rw [Json.encodeChar_ascii hAscii, mem_singleton] at hByte
    exact Json.toUInt8_inj hc hByte hAscii ▸ hd
  · have hHigh := Json.encodeChar_not_ascii (Nat.le_of_not_lt hAscii) _ hByte
    rw [Json.toNat_toUInt8 hc] at hHigh
    omega

theorem byte_mem_of_rune {c : Char} (hc : c.toNat < 128) (skipped : Nat) (h : some c ∈ Json.runesFrom skipped value) :
    byte c ∈ value := by
  induction value generalizing skipped with
  | nil => simp [Json.runesFrom] at h
  | cons b rest ih =>
    cases skipped with
    | succ skipped => exact mem_cons_of_mem b (ih skipped h)
    | zero =>
      rw [Json.runesFrom] at h
      split at h
      · next d hd =>
        rcases mem_cons.mp h with hSame | hRest
        · obtain ⟨more, hMore⟩ := Json.decodeRune_eq_some hd
          rw [hMore, ← Option.some.inj hSame, Json.encodeChar_ascii hc]
          exact mem_cons_self
        · exact mem_cons_of_mem b (ih _ hRest)
      · rcases mem_cons.mp h with hSame | hRest
        · cases hSame
        · exact mem_cons_of_mem b (ih _ hRest)

theorem activeElement_none (name : Bytes) (h : byte '<' ∉ value) : activeElement lib name value = none := by
  have hLower : byte '<' ∉ lib.toLower value := by
    intro hIn
    obtain ⟨c, hc, hSame⟩ := mem_map.mp (mem_of_byte_mem_utf8 (by decide) hIn)
    obtain ⟨rune, hRune, rfl⟩ := mem_map.mp hc
    have hOpening : rune.getD '\ufffd' = '<' := by
      by_contra hOther
      exact lowerRune_ne hOther hSame
    cases rune with
    | none => exact absurd hOpening (by decide)
    | some c =>
      obtain rfl : c = '<' := hOpening
      exact h (byte_mem_of_rune (by decide) 0 hRune)
  rw [activeElement, findHTMLTag_none 0 0 hLower]
  rfl

/-! ## Raw HTML -/

theorem stripped_subset (skipped : Nat) (value : Bytes) : scan dropHTML skipped value ⊆ value := by
  induction value generalizing skipped with
  | nil => cases skipped <;> exact Subset.refl _
  | cons b rest ih =>
    cases skipped with
    | succ skipped => exact Subset.trans (ih skipped) (subset_cons_self b rest)
    | zero =>
      rw [scan, dropHTML]
      cases rawHTML (b :: rest) with
      | some length => exact Subset.trans (ih _) (subset_cons_self b rest)
      | none => exact cons_subset_cons b (ih 0)

theorem stripped_of_flat (skipped : Nat) (h : flatFrom skipped value = true) :
    ∀ b ∈ scan dropHTML skipped value, b ≠ byte '<' ∧ b ≠ byte '[' := by
  induction value generalizing skipped with
  | nil => cases skipped <;> exact nofun
  | cons b rest ih =>
    cases skipped with
    | succ skipped => exact ih skipped h
    | zero =>
      rw [flatFrom] at h
      rw [scan, dropHTML]
      cases hRaw : rawHTML (b :: rest) with
      | some length =>
        rw [hRaw] at h
        exact ih _ h
      | none =>
        simp only [hRaw, Bool.and_eq_true, decide_eq_true_eq] at h
        exact forall_mem_cons.mpr ⟨h.1, ih 0 h.2⟩

theorem stripRawHTML_inert (h : Flat lib value) : Inert (stripRawHTML value) :=
  ⟨fun hIn => h.code (stripped_subset 0 value hIn), fun hIn => (stripped_of_flat 0 h.html _ hIn).1 rfl,
    fun hIn => (stripped_of_flat 0 h.html _ hIn).2 rfl⟩

/-! ## Texts without constructs -/

theorem scan_eq_self {step : Bytes → Option (Bytes × Nat)}
    (h : ∀ part, part <:+ value → part ≠ [] → step part = none) : scan step 0 value = value := by
  induction value with
  | nil => rfl
  | cons b rest ih =>
    rw [scan, h (b :: rest) suffix_rfl (cons_ne_nil b rest),
      ih fun part hPart => h part (hPart.trans (suffix_cons b rest))]

theorem labelStart_none (h : byte '[' ∉ value) : labelStart value = none := by
  unfold labelStart
  split <;> grind

theorem splitAfter_ne_nil (value : Bytes) : splitAfter value ≠ [] := by
  cases value with
  | nil => exact cons_ne_nil _ _
  | cons b rest =>
    rw [splitAfter]
    split
    · exact cons_ne_nil _ _
    · split <;> exact cons_ne_nil _ _

theorem splitAfter_flatten (value : Bytes) : (splitAfter value).flatten = value := by
  induction value with
  | nil => rfl
  | cons b rest ih =>
    rw [splitAfter]
    split
    · rw [flatten_cons, ih, singleton_append]
    split
    · next hNone => exact absurd hNone (splitAfter_ne_nil rest)
    next line lines hLines =>
    rw [hLines, flatten_cons] at ih
    rw [flatten_cons, cons_append, ih]

theorem Inert.of_suffix {part : Bytes} (h : Inert value) (hPart : part <:+ value) : Inert part :=
  ⟨fun hIn => h.code (hPart.subset hIn), fun hIn => h.opening (hPart.subset hIn),
    fun hIn => h.bracket (hPart.subset hIn)⟩

section

variable (h : Inert value)
include h

theorem Inert.rawHTML_none (hSome : value ≠ []) : rawHTML value = none := by
  obtain ⟨b, rest, rfl⟩ := exists_cons_of_ne_nil hSome
  have hFirst : byte '<' ≠ b := fun hSame => h.opening (hSame ▸ mem_cons_self)
  have hOpening : ¬ commentOpening.isPrefixOf (b :: rest) = true := not_isPrefixOf_cons hFirst
  rw [rawHTML, if_neg hOpening]
  exact if_neg hFirst.symm

theorem Inert.construct_none : construct lib value = none := by
  have hHead : value.head? ≠ some (byte '`') := fun hSame => h.code (mem_of_head? hSame)
  have hStart := labelStart_none h.bracket
  have hInline : inlineAt value = none := by rw [inlineAt, hStart]; rfl
  have hLabel : labelOnly value = none := by rw [labelOnly, hStart]; rfl
  rw [construct, if_neg hHead, hInline, hLabel]

theorem Inert.references : ∀ line ∈ splitAfter value, isReferenceDefinition line = false := by
  intro line hLine
  have hFree : byte '[' ∉ line := fun hIn =>
    h.bracket (splitAfter_flatten value ▸ mem_flatten.mpr ⟨line, hLine, hIn⟩)
  have hHead : (line.dropWhile fun b => b = byte ' ' || b = byte '\t').head? ≠ some (byte '[') :=
    fun hSame => hFree ((dropWhile_suffix _).subset (mem_of_head? hSame))
  simp [isReferenceDefinition, hHead]

theorem Inert.stripReferenceDefinitions : stripReferenceDefinitions value = value := by
  rw [Markdown.stripReferenceDefinitions, filter_eq_self.mpr fun line hLine => by rw [h.references line hLine]; rfl,
    splitAfter_flatten]

theorem Inert.destinations : sanitizeMarkdownDestinations lib value = value :=
  scan_eq_self fun _ hPart _ => (h.of_suffix hPart).construct_none

theorem Inert.sanitize : sanitize lib value = some value := by
  have hStrip : stripRawHTML value = value := scan_eq_self fun _ hPart hSome => by
    rw [dropHTML, (h.of_suffix hPart).rawHTML_none hSome]
    rfl
  rw [Markdown.sanitize, protectMarkdownCode_plain h.code,
    removeActiveHTMLElements_none fun name _ => activeElement_none name h.opening, Option.map_some, hStrip,
    h.stripReferenceDefinitions, h.destinations]
  rfl

theorem Inert.clean : Clean lib value := by
  have hInline : ∀ before rest c, value = before ++ rest → inlineAt rest ≠ some c := by
    intro before rest c hValue hAt
    rw [inlineAt, labelStart_none (h.of_suffix ⟨before, hValue.symm⟩).bracket] at hAt
    cases hAt
  refine ⟨fun before inside after hValue => ?_, fun before after hValue => ?_, h.references,
    fun before rest c hValue hAt => absurd hAt (hInline before rest c hValue),
    fun before rest c hValue hAt => absurd hAt (hInline before rest c hValue)⟩
  · exact absurd (hValue ▸ mem_append_right before mem_cons_self) h.opening
  · exact h.opening (hValue ▸ mem_append_right before (mem_append_left after (by decide)))

end

/-- A library for texts in ASCII. -/
def asciiLibrary : Library where
  lowerBeyond := fun c => if c = '<' then 'a' else c
  lowerBeyond_ne c := by
    split
    · decide
    · assumption
  unescapeString := id
  parseScheme value := some ((value.findIdx? (· = byte ':')).elim [] value.take)

def greeting : Bytes := text "Hi <b>there</b><!--[x-->, <a href=[y]>you"

end Proctor.Markdown
