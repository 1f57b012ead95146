import Proctor.Json.Containers
import Proctor.Json.Value

/-! # The compact spelling is a JSON text and the shortest one

`Doc.text` is derived by the grammar for a tree that reads back as the document, and no JSON text
of the document, sorted or not, has fewer UTF-8 octets. -/
namespace Json

open List Doc
open Nat (toDigits)
open Option (bind_eq_bind map_eq_some_iff some)

theorem Escape.letter_ne_u (e : Escape) : e.letter ≠ 'u' := by
  cases e <;> decide

theorem scalars_canonicalItem (c : Char) (items : List Item) :
    scalars (canonicalItem c :: items) = (scalars items).map (c :: ·) := by
  unfold canonicalItem
  split_ifs with h1 h2 h3 h4 h5 h6 h7 h8
  · subst h1; rfl
  · subst h2; rfl
  · subst h3; rfl
  · subst h4; rfl
  · subst h5; rfl
  · subst h6; rfl
  · subst h7; rfl
  · have hHigh : isHighSurrogate c.toNat = false := by simp [isHighSurrogate]; omega
    have hLow : isLowSurrogate c.toNat = false := by simp [isLowSurrogate]; omega
    rw [scalars.eq_def]
    simp [hHigh, hLow]
  · rfl

theorem scalars_canonical (s : List Char) : scalars (s.map canonicalItem) = some s := by
  induction s with
  | nil => rfl
  | cons c s ih => rw [map_cons, scalars_canonicalItem, ih]; rfl

theorem hexDigit_digitChar : ∀ {n : Nat}, n < 16 → hexDigit (Nat.digitChar n) = some n := by
  decide

theorem canonicalItem_spells (c : Char) : ItemSpells (canonicalItem c) (itemText (canonicalItem c)) := by
  unfold canonicalItem
  split_ifs with h1 h2 h3 h4 h5 h6 h7 h8
  all_goals try exact rfl
  · refine ⟨_, _, _, _, rfl, ?_⟩
    rw [hexUnit, hexDigit_digitChar (by omega), hexDigit_digitChar (by omega)]
    change some (((0 * 16 + 0) * 16 + c.toNat / 16) * 16 + c.toNat % 16) = _
    congr 1
    omega
  · exact ⟨rfl, by omega, h1, h2⟩

theorem quoted_spells (s : List Char) : StringSpells (s.map canonicalItem) (quoted s) := by
  refine ⟨_, rfl, ?_⟩
  induction s with
  | nil => rfl
  | cons c s ih => exact ⟨_, _, rfl, canonicalItem_spells c, ih⟩

theorem toDigits_head (n : Nat) : ∃ c rest, toDigits 10 n = c :: rest ∧ c.isDigit := by
  cases h : toDigits 10 n with
  | nil => exact absurd h Nat.toDigits_ne_nil
  | cons c rest =>
    have hMem : c ∈ toDigits 10 n := by rw [h]; simp
    exact ⟨c, rest, rfl, Nat.isDigit_of_mem_toDigits (by decide) (by decide) hMem⟩

def memberText (member : List Char × Doc) : List Char := quoted member.1 ++ ':' :: member.2.text

theorem elementTexts_eq_map (elements : List Doc) : elementTexts elements = elements.map text := by
  induction elements with
  | nil => rfl
  | cons element elements ih => simp [elementTexts, ih]

theorem memberTexts_eq_map (members : List (List Char × Doc)) :
    memberTexts members = members.map memberText := by
  induction members with
  | nil => rfl
  | cons member members ih => simp [memberTexts, ih, memberText]

section Spelling

variable (items : List Char → List Item) (write : List Char → List Char)

mutual
@[grind] def Doc.treeWith : Doc → Tree
  | .null => .null
  | .bool b => .bool b
  | .int n => .num (decimal n)
  | .str s => .str (items s)
  | .arr elements => .arr (elementTrees elements)
  | .obj members => .obj (memberTrees members)

@[grind] def elementTrees : List Doc → List Tree
  | [] => []
  | element :: elements => element.treeWith :: elementTrees elements

@[grind] def memberTrees : List (List Char × Doc) → List (List Item × Tree)
  | [] => []
  | (key, doc) :: members => (items key, doc.treeWith) :: memberTrees members
end

mutual
@[grind] def Doc.textWith : Doc → List Char
  | .null => ['n', 'u', 'l', 'l']
  | .bool true => ['t', 'r', 'u', 'e']
  | .bool false => ['f', 'a', 'l', 's', 'e']
  | .int n => decimal n
  | .str s => write s
  | .arr elements => '[' :: separated (elementTextsWith elements) ++ [']']
  | .obj members => '\x7b' :: separated (memberTextsWith members) ++ ['\x7d']

@[grind] def elementTextsWith : List Doc → List (List Char)
  | [] => []
  | element :: elements => element.textWith :: elementTextsWith elements

@[grind] def memberTextsWith : List (List Char × Doc) → List (List Char)
  | [] => []
  | (key, doc) :: members => (write key ++ ':' :: doc.textWith) :: memberTextsWith members
end

end Spelling

theorem elementTrees_eq_map (items : List Char → List Item) (elements : List Doc) :
    elementTrees items elements = elements.map (treeWith items) := by
  induction elements with
  | nil => rfl
  | cons element elements ih => rw [elementTrees, ih]; rfl

theorem memberTrees_eq_map (items : List Char → List Item) (members : List (List Char × Doc)) :
    memberTrees items members = members.map fun m => (items m.1, m.2.treeWith items) := by
  induction members with
  | nil => rfl
  | cons member members ih => rw [memberTrees, ih]; rfl

theorem elementTextsWith_eq_map (write : List Char → List Char) (elements : List Doc) :
    elementTextsWith write elements = elements.map (textWith write) := by
  induction elements with
  | nil => rfl
  | cons element elements ih => rw [elementTextsWith, ih]; rfl

theorem memberTextsWith_eq_map (write : List Char → List Char) (members : List (List Char × Doc)) :
    memberTextsWith write members = members.map fun m => write m.1 ++ ':' :: m.2.textWith write := by
  induction members with
  | nil => rfl
  | cons member members ih => rw [memberTextsWith, ih]; rfl

theorem Doc.textWith_quoted (doc : Doc) : doc.textWith quoted = doc.text := by
  induction doc using induct with
  | bool b => cases b <;> rfl
  | arr elements ih =>
    rw [textWith, text, elementTextsWith_eq_map, elementTexts_eq_map,
      map_congr_left ih]
  | obj members ih =>
    have hMems : members.map (fun m => quoted m.1 ++ ':' :: m.2.textWith quoted) =
        members.map memberText :=
      map_congr_left fun m hm => by rw [ih m hm, memberText]
    rw [textWith, text, memberTextsWith_eq_map, memberTexts_eq_map, hMems]
  | _ => rfl

theorem natural_toDigits (n : Nat) : natural (toDigits 10 n) = some n := by
  have hDigits : ∀ c ∈ toDigits 10 n, c.isDigit := fun c hc =>
    Nat.isDigit_of_mem_toDigits (by decide) (by decide) hc
  rw [natural, if_pos ⟨Nat.toDigits_ne_nil, all_eq_true.mpr hDigits⟩,
    Nat.ofDigitChars_ten_toDigits]

theorem integer_of_head {digits : List Char} (h : digits.head? ≠ some '-') :
    integer digits = (natural digits).map fun n : Nat => (n : Int) := by
  unfold integer
  split
  · exact absurd rfl h
  · rfl

theorem integer_decimal (n : Int) : integer (decimal n) = some n := by
  unfold decimal
  split
  · rw [integer, natural_toDigits]
    exact congrArg some (show -(n.natAbs : Int) = n by omega)
  obtain ⟨c, rest, hDigits, hc⟩ := toDigits_head n.natAbs
  rw [integer_of_head, natural_toDigits]
  · exact congrArg some (show (n.natAbs : Int) = n by omega)
  rw [hDigits]
  rintro ⟨⟩
  exact absurd hc (by decide)

theorem toDigits_head_ne_zero (n : Nat) : n ≠ 0 → (toDigits 10 n).head? ≠ some '0' := by
  induction n using Nat.strongRecOn with
  | ind n ih =>
    intro hn
    by_cases hSmall : n < 10
    · rw [Nat.toDigits_of_lt_base hSmall]
      simpa using hn
    obtain ⟨c, rest, hDigits, -⟩ := toDigits_head (n / 10)
    have hHead := ih (n / 10) (by omega) (by omega)
    rw [Nat.toDigits_of_base_le (by decide) (by omega)]
    rw [hDigits] at hHead ⊢
    exact hHead

theorem integerPart_toDigits (n : Nat) : IntegerPart (toDigits 10 n) := by
  by_cases hn : n = 0
  · subst hn; exact .inl rfl
  · refine .inr ⟨⟨Nat.toDigits_ne_nil, fun c hc => ?_⟩, toDigits_head_ne_zero n hn⟩
    exact Nat.isDigit_of_mem_toDigits (by decide) (by decide) hc

theorem numberSpelling_decimal (n : Int) : NumberSpelling (decimal n) := by
  unfold decimal
  split
  · exact ⟨['-'], toDigits 10 n.natAbs, [], [], by simp, .inr rfl, integerPart_toDigits _, .inl rfl, .inl rfl⟩
  · exact ⟨[], toDigits 10 n.natAbs, [], [], by simp, .inl rfl, integerPart_toDigits _, .inl rfl, .inl rfl⟩

theorem Padded.of_body {value : List Char → Prop} {text : List Char} (h : value text) :
    Padded value text :=
  ⟨[], text, [], by simp, by simp [Ws], by simp [Ws], h⟩

theorem ElementBody.of_spells {tree : Tree} {v : List Char} (h : Spells tree v) : ElementBody tree v :=
  ⟨[], v, rfl, ws_nil, h⟩

theorem MemberBody.of_spells {member : List Item × Tree} {k v : List Char} (hk : StringSpells member.1 k)
    (hv : Spells member.2 v) : MemberBody member (k ++ ':' :: v) :=
  ⟨[], k, [], v, by simp, ws_nil, hk, ws_nil, .of_spells hv⟩

section Spelling

variable {items : List Char → List Item} {write : List Char → List Char}

theorem Doc.spells_treeWith (hWrite : ∀ s, StringSpells (items s) (write s)) (doc : Doc) :
    Spells (doc.treeWith items) (doc.textWith write) := by
  induction doc using induct with
  | null => rfl
  | bool b => cases b <;> rfl
  | int n => exact ⟨rfl, numberSpelling_decimal n⟩
  | str s => exact hWrite s
  | arr elements ih =>
    refine spells_arr_iff.mpr ⟨_, rfl, left_separated ?_⟩
    rw [elementTrees_eq_map, elementTextsWith_eq_map, forall₂_map_left_iff, forall₂_map_right_iff,
      forall₂_same]
    exact fun e he => .of_spells (ih e he)
  | obj members ih =>
    refine spells_obj_iff.mpr ⟨_, rfl, left_separated ?_⟩
    rw [memberTrees_eq_map, memberTextsWith_eq_map, forall₂_map_left_iff, forall₂_map_right_iff,
      forall₂_same]
    exact fun m hm => .of_spells (hWrite m.1) (ih m hm)

theorem Doc.doc?_treeWith (hItems : ∀ s, scalars (items s) = some s) (doc : Doc) :
    (doc.treeWith items).doc? = some doc := by
  induction doc using induct with
  | null => rfl
  | bool b => rfl
  | int n => rw [treeWith, Tree.doc?, integer_decimal]; rfl
  | str s => rw [treeWith, Tree.doc?, hItems]; rfl
  | arr elements ih =>
    have hDocs : elementDocs? (elementTrees items elements) = some elements := by
      rw [elementTrees_eq_map, elementDocs?_eq_some_iff, forall₂_map_left_iff, forall₂_same]
      exact ih
    rw [treeWith, Tree.doc?, hDocs]; rfl
  | obj members ih =>
    have hDocs : memberDocs? (memberTrees items members) = some members := by
      rw [memberTrees_eq_map, memberDocs?_eq_some_iff, forall₂_map_left_iff, forall₂_same]
      exact fun m hm => ⟨hItems m.1, ih m hm⟩
    rw [treeWith, Tree.doc?, hDocs]; rfl

end Spelling

def Doc.tree (doc : Doc) : Tree := doc.treeWith (List.map canonicalItem)

theorem Doc.spells_tree (doc : Doc) : Spells doc.tree doc.text := by
  have hSpells := doc.spells_treeWith quoted_spells
  rwa [doc.textWith_quoted] at hSpells

theorem Doc.doc?_tree (doc : Doc) : doc.tree.doc? = some doc :=
  doc.doc?_treeWith scalars_canonical

def size (text : List Char) : Nat := (utf8 text).length

@[simp] theorem size_nil : size [] = 0 := rfl

@[simp] theorem size_append (a b : List Char) : size (a ++ b) = size a + size b := by
  simp [size]

@[simp] theorem size_cons (c : Char) (text : List Char) :
    size (c :: text) = c.utf8Size + size text := by
  simp [size, String.length_utf8EncodeChar]

theorem length_le_size (text : List Char) : text.length ≤ size text := by
  induction text with
  | nil => simp
  | cons c text ih =>
    have := c.utf8Size_pos
    rw [length_cons, size_cons]
    omega

theorem size_separated (items : List (List Char)) :
    size (separated items) = (items.map size).sum + (items.length - 1) := by
  have hTail (items : List (List Char)) :
      size (items.flatMap (',' :: ·)) = (items.map size).sum + items.length := by
    induction items with
    | nil => rfl
    | cons item items ih =>
      have hComma : Char.utf8Size ',' = 1 := by decide
      simp only [flatMap_cons, size_append, size_cons, hComma, ih, map_cons,
        sum_cons, length_cons]
      omega
  cases items with
  | nil => rfl
  | cons item items => simp [separated, hTail, Nat.add_assoc]

theorem size_separated_perm {a b : List (List Char)} (h : a.Perm b) :
    size (separated a) = size (separated b) := by
  rw [size_separated, size_separated, (h.map size).sum_nat, h.length_eq]

theorem Doc.size_sort (doc : Doc) : size doc.sort.text = size doc.text := by
  induction doc using induct with
  | arr elements ih =>
    have hSizes : (elements.map sort).map (fun e => size e.text) =
        elements.map (fun e => size e.text) := by
      rw [map_map]
      exact map_congr_left ih
    simp only [sort, text, sortElements_eq_map, elementTexts_eq_map, size_append,
      size_cons, size_separated, map_map, length_map]
    rw [map_map] at hSizes
    simp only [Function.comp_def] at hSizes ⊢
    rw [hSizes]
  | obj members ih =>
    have hPerm := (sortedMembers_perm members).map memberText
    have hSizes : members.map (fun m => size (memberText (m.1, m.2.sort))) =
        members.map (fun m => size (memberText m)) := by
      refine map_congr_left fun m hm => ?_
      simp only [memberText, size_append, size_cons, ih m hm]
    simp only [sort, text, memberTexts_eq_map, size_append, size_cons,
      size_separated_perm hPerm]
    simp only [size_separated, map_map, length_map, Function.comp_def, hSizes]
  | _ => rfl

variable {digits text : List Char} {n : Nat}

theorem ofDigitChars_lt (h : ∀ c ∈ digits, c.isDigit) (init : Nat) :
    Nat.ofDigitChars 10 digits init < (init + 1) * 10 ^ digits.length := by
  induction digits generalizing init with
  | nil => simp
  | cons c digits ih =>
    have hc := h c (by simp)
    have hDigit : c.toNat - '0'.toNat < 10 := by
      simp only [Char.isDigit, Bool.and_eq_true, decide_eq_true_eq, UInt32.le_iff_toNat_le] at hc
      change c.val.toNat - 48 < 10
      have : c.val.toNat ≤ 57 := hc.2
      omega
    calc
      _ < (10 * init + (c.toNat - '0'.toNat) + 1) * 10 ^ digits.length :=
        ih (fun d hd => h d (by simp [hd])) _
      _ ≤ ((init + 1) * 10) * 10 ^ digits.length := Nat.mul_le_mul_right _ (by omega)
      _ = (init + 1) * 10 ^ (digits.length + 1) := by rw [Nat.pow_succ, Nat.mul_assoc, Nat.mul_comm 10]

theorem natural_eq_some (h : natural digits = some n) :
    digits ≠ [] ∧ (∀ c ∈ digits, c.isDigit = true) ∧ Nat.ofDigitChars 10 digits 0 = n := by
  rw [natural] at h
  split at h
  · rename_i hDigits
    exact ⟨hDigits.1, all_eq_true.mp hDigits.2, some.inj h⟩
  · cases h

theorem length_toDigits_natural (h : natural digits = some n) :
    (toDigits 10 n).length ≤ digits.length := by
  obtain ⟨hne, hDigits, rfl⟩ := natural_eq_some h
  rw [Nat.length_toDigits_le_iff (by decide) (length_pos_iff.mpr hne)]
  simpa using ofDigitChars_lt hDigits 0

theorem utf8Size_of_isDigit {c : Char} (h : c.isDigit) : c.utf8Size = 1 := by
  simp only [Char.isDigit, Bool.and_eq_true, decide_eq_true_eq, UInt32.le_iff_toNat_le] at h
  rw [Char.utf8Size_eq_one_iff]
  exact le_trans h.2 (by decide)

theorem size_toDigits (n : Nat) : size (toDigits 10 n) = (toDigits 10 n).length := by
  have hSize (text : List Char) (h : ∀ c ∈ text, c.isDigit) : size text = text.length := by
    induction text with
    | nil => rfl
    | cons c text ih =>
      rw [size_cons, utf8Size_of_isDigit (h c (by simp)), ih fun d hd => h d (by simp [hd]),
        length_cons, Nat.add_comm]
  exact hSize _ fun c hc => Nat.isDigit_of_mem_toDigits (by decide) (by decide) hc

theorem size_decimal_le {spelling : List Char} {n : Int} (h : integer spelling = some n) :
    size (decimal n) ≤ size spelling := by
  have hLen (digits : List Char) (k : Nat) (hk : natural digits = some k) :
      size (toDigits 10 k) ≤ size digits := by
    rw [size_toDigits]
    exact le_trans (length_toDigits_natural hk) (length_le_size digits)
  unfold integer at h
  split at h
  · rename_i digits
    obtain ⟨k, hk, rfl⟩ := map_eq_some_iff.mp h
    have hDigits := hLen digits k hk
    rw [decimal, size_cons]
    have hAbs : (-(k : Int)).natAbs = k := by omega
    rw [hAbs]
    split
    · rw [size_cons]; omega
    · omega
  · obtain ⟨k, hk, rfl⟩ := map_eq_some_iff.mp h
    exact hLen spelling k hk

theorem size_canonicalItem_le (c : Char) : size (itemText (canonicalItem c)) ≤ 6 := by
  unfold canonicalItem
  split_ifs with h1 h2 h3 h4 h5 h6 h7 h8
  all_goals try decide
  · have hHex : ∀ k < 32, size (itemText (.unit k)) ≤ 6 := by decide
    exact hHex _ h8
  have := c.utf8Size_le_four
  simp only [itemText, size_cons, size_nil]
  omega

theorem size_unit_spelling {u : Nat} (h : ItemSpells (.unit u) text) : 6 ≤ size text := by
  obtain ⟨a, b, c, d, rfl, -⟩ := h
  exact length_le_size ['\\', 'u', a, b, c, d]

theorem size_scalars_le (items : List Item) : ∀ (body s : List Char), ItemsSpell items body →
    scalars items = some s → size (s.flatMap fun c => itemText (canonicalItem c)) ≤ size body := by
  fun_induction scalars items with
  | case1 =>
    rintro body s rfl hs
    cases hs
    simp
  | case2 c items ih =>
    rintro _ _ ⟨a, b, rfl, ⟨rfl, hLow, hQuote, hSlash⟩, hItems⟩ h
    obtain ⟨s, hs, rfl⟩ := map_eq_some_iff.mp h
    have hTail := ih b s hItems hs
    have hRaw : canonicalItem c = .raw c := by
      have hCtl (d : Char) (hd : d.toNat < 0x20) : c ≠ d := by rintro rfl; omega
      simp only [canonicalItem, hQuote, hSlash, hCtl '\x08' (by decide),
        hCtl '\x0c' (by decide), hCtl '\n' (by decide), hCtl '\r' (by decide),
        hCtl '\t' (by decide), if_false, if_neg (not_lt.mpr hLow)]
    have hSame : size (itemText (canonicalItem c)) = size [c] := by rw [hRaw, itemText]
    simp only [flatMap_cons, size_append]
    omega
  | case3 e items ih =>
    rintro _ _ ⟨a, b, rfl, rfl, hItems⟩ h
    obtain ⟨s, hs, rfl⟩ := map_eq_some_iff.mp h
    have hTail := ih b s hItems hs
    have hShort : size (itemText (canonicalItem e.scalar)) ≤ size ['\\', e.letter] := by
      cases e <;> decide
    simp only [flatMap_cons, size_append]
    omega
  | case4 u hHigh low items hLow ih =>
    rintro _ _ ⟨a, _, rfl, hUnit, b, c, rfl, hUnit', hItems⟩ h
    obtain ⟨s, hs, rfl⟩ := map_eq_some_iff.mp h
    have hTail := ih c s hItems hs
    have hFirst := size_unit_spelling hUnit
    have hPair := size_canonicalItem_le (surrogatePair u low)
    simp only [flatMap_cons, size_append]
    omega
  | case5 | case6 | case7 => intro _ _ _ h; cases h
  | case8 u items _ _ ih =>
    rintro _ _ ⟨a, b, rfl, hUnit, hItems⟩ h
    obtain ⟨s, hs, rfl⟩ := map_eq_some_iff.mp h
    have hTail := ih b s hItems hs
    have hFirst := size_unit_spelling hUnit
    have hScalar := size_canonicalItem_le (Char.ofNat u)
    simp only [flatMap_cons, size_append]
    omega

theorem size_quoted_le {items : List Item} {s : List Char} (h : StringSpells items text)
    (hs : scalars items = some s) : size (quoted s) ≤ size text := by
  obtain ⟨body, rfl, hItems⟩ := h
  have hBody := size_scalars_le items body s hItems hs
  simp only [quoted, cons_append, size_cons, size_append]
  omega

theorem size_le_of_padded {value : List Char → Prop}
    (hValue : ∀ body, value body → n ≤ size body) (h : Padded value text) : n ≤ size text := by
  obtain ⟨before, body, after, rfl, -, -, hBody⟩ := h
  have := hValue body hBody
  simp only [size_append]
  omega

theorem size_left_le {α β : Type} {body : α → List Char → Prop} {items : List α} {docs : List β}
    {write : β → List Char}
    (hItems : Forall₂ (fun item doc => ∀ a, body item a → size (write doc) ≤ size a) items docs)
    {first : Bool} (h : Left body first items text) :
    (docs.map fun doc => size (write doc)).sum + (docs.length - first.toNat) ≤ size text := by
  induction hItems generalizing first text with
  | nil => simp
  | cons hItem _ ih =>
    obtain ⟨sep, a, rest, rfl, hSep, ha, hRest⟩ := h
    have hHead := hItem a ha
    have hTail := ih hRest
    have hComma : 1 - first.toNat ≤ size sep := by
      cases first with
      | true => exact Nat.zero_le _
      | false =>
        obtain ⟨w, rfl, -⟩ := hSep
        rw [size_append]
        exact Nat.le_add_left 1 _
    simp only [map_cons, sum_cons, length_cons, size_append, Bool.toNat_false] at hTail ⊢
    omega

theorem size_separated_le {α β : Type} {body : α → List Char → Prop} {items : List α} {docs : List β}
    {write : β → List Char}
    (hItems : Forall₂ (fun item doc => ∀ a, body item a → size (write doc) ≤ size a) items docs)
    (h : Left body true items text) : size (separated (docs.map write)) ≤ size text := by
  rw [size_separated, map_map, length_map]
  exact size_left_le hItems h

theorem size_text_le (tree : Tree) : ∀ (text : List Char) (doc : Doc), Spells tree text →
    tree.doc? = some doc → size doc.text ≤ size text := by
  induction tree using Tree.induct with
  | null => rintro _ _ rfl ⟨⟩; exact le_rfl
  | bool b => cases b <;> rintro _ _ rfl ⟨⟩ <;> exact le_rfl
  | num spelling =>
    rintro _ doc ⟨rfl, -⟩ hDoc
    obtain ⟨n, hn, rfl⟩ := map_eq_some_iff.mp hDoc
    exact size_decimal_le hn
  | str items =>
    intro text doc h hDoc
    obtain ⟨s, hs, rfl⟩ := map_eq_some_iff.mp hDoc
    exact size_quoted_le h hs
  | arr elements ih =>
    intro text doc h hDoc
    obtain ⟨docs, hDocs, rfl⟩ := map_eq_some_iff.mp hDoc
    obtain ⟨body, rfl, hBody⟩ := spells_arr_iff.mp h
    have hItems := ((forall₂_and_left _ _).mpr ⟨ih, elementDocs?_eq_some_iff.mp hDocs⟩).imp
      (S := fun element doc => ∀ a, ElementBody element a → size doc.text ≤ size a)
    have := size_separated_le (hItems ?_) hBody
    · simp only [text, elementTexts_eq_map, cons_append, size_cons, size_append]
      omega
    · rintro element doc ⟨hElem, hDoc⟩ _ ⟨w, v, rfl, -, hv⟩
      exact le_trans (hElem v doc hv hDoc) (by simp)
  | obj members ih =>
    intro text doc h hDoc
    obtain ⟨docs, hDocs, rfl⟩ := map_eq_some_iff.mp hDoc
    obtain ⟨body, rfl, hBody⟩ := spells_obj_iff.mp h
    have hItems := ((forall₂_and_left _ _).mpr ⟨ih, memberDocs?_eq_some_iff.mp hDocs⟩).imp
      (S := fun member doc => ∀ a, MemberBody member a → size (memberText doc) ≤ size a)
    have := size_separated_le (hItems ?_) hBody
    · simp only [text, memberTexts_eq_map, cons_append, size_cons, size_append]
      omega
    · rintro member doc ⟨hMember, hName, hDoc⟩ _ ⟨w, k, w', _, rfl, -, hk, -, w'', v, rfl, -, hv⟩
      have hKey := size_quoted_le hk hName
      have hValue := hMember v doc.2 hv hDoc
      simp only [memberText, size_append, size_cons]
      omega

end Json
