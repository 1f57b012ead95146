import Proctor.Json.Reader

/-! # Reading a whole document

`parseValue` is the recursive reader behind `json.Unmarshal` and `Decoder.Decode`, on the decoded
characters of the input: it returns one value and the characters after it. Strings keep every
surrogate pair, numbers are integers in plain decimal, and members keep the order of the text.
`decode_complete` is its specification on JSON texts of a document. -/
namespace Json

open List Option

def skipWhitespace (text : List Char) : List Char := text.dropWhile isWhitespace

def escapeOf (letter : Char) : Option Escape :=
  [.quote, .backslash, .slash, .backspace, .formFeed, .newline, .carriageReturn, .tab].find?
    fun e => e.letter = letter

@[grind] def parseItems : List Char → Option (List Item × List Char)
  | '"' :: rest => some ([], rest)
  | '\\' :: 'u' :: a :: b :: c :: d :: rest => do
    let u ← hexUnit a b c d
    let (items, rest) ← parseItems rest
    return (.unit u :: items, rest)
  | '\\' :: letter :: rest => do
    let e ← escapeOf letter
    let (items, rest) ← parseItems rest
    return (.short e :: items, rest)
  | c :: rest => do
    let (items, rest) ← parseItems rest
    return (.raw c :: items, rest)
  | [] => none

theorem parseItems_quote (rest : List Char) : parseItems ('"' :: rest) = some ([], rest) := by
  rw [parseItems]

def parseString (text : List Char) : Option (List Char × List Char) := do
  let (items, rest) ← parseItems text
  let s ← scalars items
  return (s, rest)

def isNumberChar (c : Char) : Bool := c.isDigit || c == '.' || c == 'e' || c == 'E'

/-- A number at the front of the text. A fraction or an exponent is taken with it and makes the
whole spelling no integer. -/
def parseNumber (text : List Char) : Option (Int × List Char) :=
  match text with
  | '-' :: rest => (integer ('-' :: rest.takeWhile isNumberChar)).map fun n =>
      (n, rest.dropWhile isNumberChar)
  | _ => (integer (text.takeWhile isNumberChar)).map fun n => (n, text.dropWhile isNumberChar)

mutual
@[grind] def parseValue : Nat → List Char → Option (Doc × List Char)
  | 0, _ => none
  | fuel + 1, text =>
    match text with
    | '"' :: rest => (parseString rest).map fun (s, rest) => (.str s, rest)
    | '[' :: rest =>
      match skipWhitespace rest with
      | ']' :: rest => some (.arr [], rest)
      | rest => (parseElements fuel rest).map fun (elements, rest) => (.arr elements, rest)
    | '\x7b' :: rest =>
      match skipWhitespace rest with
      | '\x7d' :: rest => some (.obj [], rest)
      | rest => (parseMembers fuel rest).map fun (members, rest) => (.obj members, rest)
    | 'n' :: 'u' :: 'l' :: 'l' :: rest => some (.null, rest)
    | 't' :: 'r' :: 'u' :: 'e' :: rest => some (.bool true, rest)
    | 'f' :: 'a' :: 'l' :: 's' :: 'e' :: rest => some (.bool false, rest)
    | text => (parseNumber text).map fun (n, rest) => (.int n, rest)

@[grind] def parseElements : Nat → List Char → Option (List Doc × List Char)
  | 0, _ => none
  | fuel + 1, text => do
    let (head, rest) ← parseValue fuel (skipWhitespace text)
    match skipWhitespace rest with
    | ',' :: rest =>
      let (tail, rest) ← parseElements fuel rest
      return (head :: tail, rest)
    | ']' :: rest => return ([head], rest)
    | _ => none

@[grind] def parseMembers : Nat → List Char → Option (List (List Char × Doc) × List Char)
  | 0, _ => none
  | fuel + 1, text => do
    let '"' :: rest := skipWhitespace text | none
    let (key, rest) ← parseString rest
    let ':' :: rest := skipWhitespace rest | none
    let (value, rest) ← parseValue fuel (skipWhitespace rest)
    match skipWhitespace rest with
    | ',' :: rest =>
      let (tail, rest) ← parseMembers fuel rest
      return ((key, value) :: tail, rest)
    | '\x7d' :: rest => return ([(key, value)], rest)
    | _ => none
end

theorem parseValue_number {c : Char} (hc : c = '-' ∨ c.isDigit) (rest : List Char)
    (fuel : Nat) : parseValue (fuel + 1) (c :: rest) =
      (parseNumber (c :: rest)).map fun (n, rest) => (.int n, rest) := by
  have hne (x : Char) (hx : x ≠ '-' ∧ x.isDigit = false) : x ≠ c := by
    rintro rfl
    rcases hc with hc | hc
    · exact hx.1 hc
    · rw [hx.2] at hc; cases hc
  rw [parseValue]
  all_goals
    intro _ h
    exact hne _ (by decide) (List.cons.inj h).1.symm

def decodeUtf8 (data : Bytes) : Option (List Char) := data.toByteArray.utf8Decode?.map Array.toList

def decode (document : Bytes) : Option (Doc × List Char) := do
  let text ← decodeUtf8 document
  parseValue (2 * text.length + 1) (skipWhitespace text)

variable {text w tail a rest : List Char} {items key : List Item} {docs : List (List Char × Doc)}

theorem skipWhitespace_append (hw : Ws w) : skipWhitespace (w ++ text) = skipWhitespace text := by
  induction w with
  | nil => rfl
  | cons c w ih =>
    rw [cons_append, skipWhitespace, dropWhile_cons_of_pos (hw c (by simp))]
    exact ih fun d hd => hw d (by simp [hd])

variable {c : Char}

theorem skipWhitespace_cons (hc : isWhitespace c = false) (text : List Char) :
    skipWhitespace (c :: text) = c :: text := by
  rw [skipWhitespace, dropWhile_cons_of_neg (by simp [hc])]

theorem skipWhitespace_idem (text : List Char) : skipWhitespace (skipWhitespace text) = skipWhitespace text :=
  dropWhile_idempotent _ text

variable {body : List Char} {tree : Tree}

theorem skipWhitespace_spells (h : Spells tree body)
    (text : List Char) : skipWhitespace (body ++ text) = body ++ text := by
  obtain ⟨c, rest, rfl, hc, -⟩ := spells_head h
  exact skipWhitespace_cons hc (rest ++ text)

theorem escapeOf_letter (e : Escape) : escapeOf e.letter = some e := by
  cases e <;> decide

theorem parseItems_raw (hQuote : c ≠ '"') (hSlash : c ≠ '\\') (rest : List Char) :
    parseItems (c :: rest) = (parseItems rest).map fun r => (.raw c :: r.1, r.2) := by
  rw [parseItems.eq_def]
  split
  · rename_i h; exact absurd (List.cons.inj h).1 hQuote
  · rename_i h; exact absurd (List.cons.inj h).1 hSlash
  · rename_i h; exact absurd (List.cons.inj h).1 hSlash
  · rename_i h
    obtain ⟨rfl, rfl⟩ := List.cons.inj h
    cases parseItems rest <;> rfl
  · rename_i h; cases h

theorem parseItems_short (e : Escape) (rest : List Char) :
    parseItems ('\\' :: e.letter :: rest) = (parseItems rest).map fun r => (.short e :: r.1, r.2) := by
  have hLetter : e.letter ≠ 'u' := by cases e <;> decide
  rw [parseItems.eq_def]
  split
  · rename_i h; cases h
  · rename_i h; exact absurd (List.cons.inj (List.cons.inj h).2).1 hLetter
  · rename_i h
    obtain ⟨rfl, rfl⟩ := List.cons.inj (List.cons.inj h).2
    rw [escapeOf_letter]
    cases parseItems rest <;> rfl
  · rename_i hNot h
    obtain ⟨rfl, rfl⟩ := List.cons.inj h
    exact absurd rfl (hNot _ _ rfl)
  · rename_i h; cases h

theorem parseItems_complete (h : ItemsSpell items body)
    (tail : List Char) : parseItems (body ++ '"' :: tail) = some (items, tail) := by
  induction items generalizing body with
  | nil => rw [h, nil_append, parseItems_quote]
  | cons item items ih =>
    obtain ⟨a, b, rfl, hItem, hItems⟩ := h
    rw [append_assoc]
    cases item with
    | raw c =>
      obtain ⟨rfl, -, hQuote, hSlash⟩ := hItem
      rw [singleton_append, parseItems_raw hQuote hSlash, ih hItems, map_some]
    | short e =>
      obtain rfl : a = ['\\', e.letter] := hItem
      change parseItems ('\\' :: e.letter :: (b ++ '"' :: tail)) = _
      rw [parseItems_short, ih hItems, map_some]
    | unit u =>
      obtain ⟨p, q, r, s, rfl, hUnit⟩ := hItem
      change parseItems ('\\' :: 'u' :: p :: q :: r :: s :: (b ++ '"' :: tail)) = _
      rw [parseItems, hUnit, ih hItems]
      rfl

theorem parseString_complete {body s : List Char}
    (h : ItemsSpell items body) (hs : scalars items = some s) (tail : List Char) :
    parseString (body ++ '"' :: tail) = some (s, tail) := by
  simp only [parseString, parseItems_complete h tail, bind_eq_bind, bind_some, hs]
  rfl

theorem span_digits {digits : List Char} (hDigits : ∀ c ∈ digits, c.isDigit)
    (hStop : NumberStop tail) : (digits ++ tail).takeWhile isNumberChar = digits ∧
      (digits ++ tail).dropWhile isNumberChar = tail := by
  have hNum : ∀ c ∈ digits, isNumberChar c := by
    intro c hc
    simp [isNumberChar, hDigits c hc]
  have hTail : tail.takeWhile isNumberChar = [] ∧ tail.dropWhile isNumberChar = tail := by
    cases tail with
    | nil => exact ⟨rfl, rfl⟩
    | cons c tail =>
      have hc : isNumberChar c = false := by
        obtain ⟨hDigit, hDot, hLower, hUpper⟩ := hStop c rfl
        simp [isNumberChar, hDigit, hDot, hLower, hUpper]
      exact ⟨takeWhile_cons_of_neg (by simp [hc]), dropWhile_cons_of_neg (by simp [hc])⟩
  rw [takeWhile_append_of_pos hNum, dropWhile_append_of_pos hNum, hTail.1, hTail.2,
    append_nil]
  exact ⟨rfl, rfl⟩

theorem parseNumber_complete {spelling : List Char} {n : Int}
    (h : integer spelling = some n) (hStop : NumberStop tail) :
    parseNumber (spelling ++ tail) = some (n, tail) := by
  have hSpelling := h
  unfold integer at h
  split at h
  · obtain ⟨k, hk, -⟩ := map_eq_some_iff.mp h
    obtain ⟨hTake, hDrop⟩ := span_digits (natural_eq_some hk).2.1 hStop
    rw [cons_append, parseNumber, hTake, hDrop, hSpelling, map_some]
  · rename_i hSign
    obtain ⟨k, hk, -⟩ := map_eq_some_iff.mp h
    obtain ⟨hne, hDigits, -⟩ := natural_eq_some hk
    obtain ⟨hTake, hDrop⟩ := span_digits hDigits hStop
    unfold parseNumber
    split
    · rename_i rest hRest
      cases spelling with
      | nil => exact absurd rfl hne
      | cons c spelling => exact absurd (congrArg (· :: spelling) (List.cons.inj hRest).1) (hSign _)
    · rw [hTake, hDrop, hSpelling, map_some]

def Parses (tree : Tree) : Prop :=
  ∀ (body : List Char) (doc : Doc), Spells tree body → tree.doc? = some doc →
    ∀ (tail : List Char), NumberStop tail → ∀ fuel, 2 * body.length ≤ fuel →
    parseValue fuel (body ++ tail) = some (doc, tail)

theorem Parses.num (spelling : List Char) : Parses (.num spelling) := by
  rintro body doc ⟨rfl, hSpelling⟩ hDoc tail hStop fuel hFuel
  obtain ⟨n, hn, rfl⟩ := map_eq_some_iff.mp hDoc
  have hBody : Spells (.num body) body := ⟨rfl, hSpelling⟩
  obtain ⟨c, rest, rfl, -⟩ := spells_head hBody
  obtain ⟨f, rfl⟩ : ∃ f, fuel = f + 1 := ⟨fuel - 1, by rw [length_cons] at hFuel; omega⟩
  rw [cons_append, parseValue_number (integer_digits hn c (by simp)), ← cons_append,
    parseNumber_complete hn hStop]
  rfl

theorem parseElements_complete (fuel : Nat) {trees : List Tree} {docs : List Doc}
    (ih : ∀ t ∈ tree :: trees, Parses t) (h : Left ElementBody true (tree :: trees) text)
    (hDocs : Forall₂ (fun tree doc => tree.doc? = some doc) (tree :: trees) docs) (tail : List Char)
    (hFuel : 2 * text.length + 1 ≤ fuel) :
    parseElements fuel (text ++ ']' :: tail) = some (docs, tail) := by
  induction fuel generalizing tree trees docs text with
  | zero => omega
  | succ fuel hLoop =>
    obtain ⟨_, rest, rfl, ⟨w, v, rfl, hw, hv⟩, hRest⟩ := left_first.mp h
    obtain ⟨head, docs, hHead, hTail, rfl⟩ := forall₂_cons_left_iff.mp hDocs
    simp only [length_append] at hFuel
    have hValue := ih tree (by simp) v head hv hHead (rest ++ ']' :: tail)
      (numberStop_left hRest (by simp) tail) fuel (by omega)
    simp only [parseElements, append_assoc, skipWhitespace_append hw, skipWhitespace_spells hv,
      hValue, bind_eq_bind, bind_some]
    cases trees with
    | nil =>
      cases hTail
      rw [skipWhitespace_append hRest, skipWhitespace_cons (by decide)]
      rfl
    | cons next trees =>
      obtain ⟨w', rest, rfl, hw', hNext⟩ := left_next.mp hRest
      simp only [length_append, length_cons] at hFuel
      have hMore := hLoop (fun t ht => ih t (by simp [ht])) hNext hTail (by omega)
      rw [append_assoc, cons_append, skipWhitespace_append hw', skipWhitespace_cons (by decide)]
      simp only [hMore]
      rfl

theorem parseMembers_complete (fuel : Nat) {member : List Item × Tree} {members : List (List Item × Tree)}
    (ih : ∀ m ∈ member :: members, Parses m.2) (h : Left MemberBody true (member :: members) text)
    (hDocs : Forall₂ ReadAs (member :: members) docs) (tail : List Char)
    (hFuel : 2 * text.length + 1 ≤ fuel) :
    parseMembers fuel (text ++ '\x7d' :: tail) = some (docs, tail) := by
  induction fuel generalizing member members docs text with
  | zero => omega
  | succ fuel hLoop =>
    obtain ⟨_, rest, rfl, ⟨w₁, _, w₂, _, rfl, hw₁, ⟨inner, rfl, hItems⟩, hw₂, w₃, v, rfl, hw₃, hv⟩, hRest⟩ :=
      left_first.mp h
    obtain ⟨doc, docs, ⟨hName, hDoc⟩, hTail, rfl⟩ := forall₂_cons_left_iff.mp hDocs
    simp only [length_append, length_cons] at hFuel
    have hValue := ih member (by simp) v doc.2 hv hDoc (rest ++ '\x7d' :: tail)
      (numberStop_left hRest (by simp) tail) fuel (by omega)
    simp only [parseMembers, append_assoc, cons_append, nil_append,
      skipWhitespace_append hw₁, skipWhitespace_append hw₂, skipWhitespace_append hw₃,
      skipWhitespace_cons (by decide : isWhitespace '"' = false),
      skipWhitespace_cons (by decide : isWhitespace ':' = false), skipWhitespace_spells hv,
      parseString_complete hItems hName, hValue, bind_eq_bind, bind_some]
    cases members with
    | nil =>
      cases hTail
      rw [skipWhitespace_append hRest, skipWhitespace_cons (by decide)]
      rfl
    | cons next members =>
      obtain ⟨w', rest, rfl, hw', hNext⟩ := left_next.mp hRest
      simp only [length_append, length_cons] at hFuel
      have hMore := hLoop (fun m hm => ih m (by simp [hm])) hNext hTail (by omega)
      rw [append_assoc, cons_append, skipWhitespace_append hw', skipWhitespace_cons (by decide)]
      simp only [hMore]
      rfl

theorem parseValue_array (h : skipWhitespace body = c :: rest) (hc : c ≠ ']') (fuel : Nat) :
    parseValue (fuel + 1) ('[' :: body) = (parseElements fuel body).map fun r => (.arr r.1, r.2) := by
  have hSkip : parseElements fuel (c :: rest) = parseElements fuel body := by
    cases fuel with
    | zero => rfl
    | succ fuel => rw [parseElements, parseElements, ← h, skipWhitespace_idem]
  rw [parseValue, h]
  split
  · rename_i h; exact absurd (List.cons.inj h).1 hc
  · rw [hSkip]

theorem parseValue_object (h : skipWhitespace body = c :: rest) (hc : c ≠ '\x7d') (fuel : Nat) :
    parseValue (fuel + 1) ('\x7b' :: body) = (parseMembers fuel body).map fun r => (.obj r.1, r.2) := by
  have hSkip : parseMembers fuel (c :: rest) = parseMembers fuel body := by
    cases fuel with
    | zero => rfl
    | succ fuel => rw [parseMembers, parseMembers, ← h, skipWhitespace_idem]
  rw [parseValue, h]
  split
  · rename_i h; exact absurd (List.cons.inj h).1 hc
  · rw [hSkip]

theorem Parses.arr {elements : List Tree} (ih : ∀ t ∈ elements, Parses t) : Parses (.arr elements) := by
  intro _ doc h hDoc tail hStop fuel hFuel
  obtain ⟨body, rfl, hBody⟩ := spells_arr_iff.mp h
  obtain ⟨docs, hDocs, rfl⟩ := map_eq_some_iff.mp hDoc
  simp only [length_append, length_cons] at hFuel
  obtain ⟨f, rfl⟩ : ∃ f, fuel = f + 1 := ⟨fuel - 1, by omega⟩
  rw [append_assoc, singleton_append, cons_append]
  cases elements with
  | nil =>
    cases hDocs
    rw [parseValue, skipWhitespace_append hBody]
    rfl
  | cons element elements =>
    have hRead := parseElements_complete f ih hBody (elementDocs?_eq_some_iff.mp hDocs) tail (by omega)
    obtain ⟨_, rest, rfl, ⟨w, v, rfl, hw, hv⟩, -⟩ := left_first.mp hBody
    obtain ⟨c, v', rfl, hSpace, hClose, -⟩ := spells_head hv
    have hSkip : skipWhitespace (w ++ c :: v' ++ rest ++ ']' :: tail) = c :: (v' ++ rest ++ ']' :: tail) := by
      simp only [append_assoc, cons_append, skipWhitespace_append hw, skipWhitespace_cons hSpace]
    rw [parseValue_array hSkip hClose, hRead, map_some]

theorem Parses.obj {members : List (List Item × Tree)} (ih : ∀ m ∈ members, Parses m.2) :
    Parses (.obj members) := by
  intro _ doc h hDoc tail hStop fuel hFuel
  obtain ⟨body, rfl, hBody⟩ := spells_obj_iff.mp h
  obtain ⟨docs, hDocs, rfl⟩ := map_eq_some_iff.mp hDoc
  simp only [length_append, length_cons] at hFuel
  obtain ⟨f, rfl⟩ : ∃ f, fuel = f + 1 := ⟨fuel - 1, by omega⟩
  rw [append_assoc, singleton_append, cons_append]
  cases members with
  | nil =>
    cases hDocs
    rw [parseValue, skipWhitespace_append hBody]
    rfl
  | cons member members =>
    have hRead := parseMembers_complete f ih hBody (memberDocs?_eq_some_iff.mp hDocs) tail (by omega)
    obtain ⟨_, rest, rfl, ⟨w, _, w', v, rfl, hw, ⟨inner, rfl, -⟩, -⟩, -⟩ := left_first.mp hBody
    have hSkip : skipWhitespace (w ++ ('"' :: inner ++ ['"']) ++ w' ++ ':' :: v ++ rest ++ '\x7d' :: tail) =
        '"' :: (inner ++ ['"'] ++ w' ++ ':' :: v ++ rest ++ '\x7d' :: tail) := by
      simp only [append_assoc, cons_append, skipWhitespace_append hw,
        skipWhitespace_cons (by decide : isWhitespace '"' = false)]
    rw [parseValue_object hSkip (by decide), hRead, map_some]

theorem parses (tree : Tree) : Parses tree := by
  induction tree using Tree.induct with
  | null =>
    rintro body doc rfl hDoc tail - fuel hFuel
    cases hDoc
    obtain ⟨f, rfl⟩ : ∃ f, fuel = f + 1 := ⟨fuel - 1, by simp at hFuel; omega⟩
    rfl
  | bool b =>
    rintro body doc hBody hDoc tail - fuel hFuel
    cases hDoc
    cases b
    all_goals
      cases hBody
      obtain ⟨f, rfl⟩ : ∃ f, fuel = f + 1 := ⟨fuel - 1, by simp at hFuel; omega⟩
      rfl
  | num spelling => exact Parses.num spelling
  | str items =>
    rintro _ doc ⟨inner, rfl, hItems⟩ hDoc tail - fuel hFuel
    obtain ⟨s, hs, rfl⟩ := map_eq_some_iff.mp hDoc
    obtain ⟨f, rfl⟩ : ∃ f, fuel = f + 1 := ⟨fuel - 1, by simp at hFuel; omega⟩
    rw [append_assoc, singleton_append, cons_append, parseValue,
      parseString_complete hItems hs]
    rfl
  | arr elements ih => exact Parses.arr ih
  | obj members ih => exact Parses.obj ih

theorem decodeUtf8_utf8 (text : List Char) : decodeUtf8 (utf8 text) = some text := by
  have hDec : (List.utf8Encode text).utf8Decode? = some text.toArray := utf8Decode?_utf8Encode
  change Option.map Array.toList (List.utf8Encode text).utf8Decode? = some text
  rw [hDec, map_some]

theorem decode_complete {doc : Doc} (hText : JsonText tree text)
    (hDoc : tree.doc? = some doc) : ∃ tail, decode (utf8 text) = some (doc, tail) ∧ Ws tail := by
  obtain ⟨before, body, after, rfl, hBefore, hAfter, hBody⟩ := hText
  have hStop : NumberStop after := numberStop_of_ws hAfter
  refine ⟨after, ?_, hAfter⟩
  have hRead := parses tree body doc hBody hDoc after hStop
    (2 * (before ++ body ++ after).length + 1) (by simp only [length_append]; omega)
  rw [decode, decodeUtf8_utf8]
  change parseValue _ (skipWhitespace (before ++ body ++ after)) = _
  rw [append_assoc, skipWhitespace_append hBefore, skipWhitespace_spells hBody,
    ← append_assoc, hRead]

/-- A text is a JSON text of one document only, since the reader returns that document. -/
theorem doc_unique {t u : Tree} {a b : Doc} (ht : JsonText t text)
    (ha : t.doc? = some a) (hu : JsonText u text) (hb : u.doc? = some b) : a = b := by
  obtain ⟨tail, hRead, -⟩ := decode_complete ht ha
  obtain ⟨tail', hRead', -⟩ := decode_complete hu hb
  rw [hRead] at hRead'
  exact congrArg Prod.fst (Option.some.inj hRead')

theorem Doc.jsonText_tree (doc : Doc) : JsonText doc.tree doc.text := Padded.of_body doc.spells_tree

theorem Doc.text_injective {a b : Doc} (h : a.text = b.text) : a = b :=
  doc_unique a.jsonText_tree a.doc?_tree (h ▸ b.jsonText_tree) b.doc?_tree

def Denotes (document : Bytes) (value : Value) : Prop :=
  ∃ text tree doc, document = utf8 text ∧ JsonText tree text ∧ tree.doc? = some doc ∧ doc.value = value

theorem denotes_unique {document : Bytes} {v v' : Value} (h : Denotes document v)
    (h' : Denotes document v') : v = v' := by
  obtain ⟨text, tree, doc, rfl, hText, hDoc, rfl⟩ := h
  obtain ⟨text', tree', doc', hEq, hText', hDoc', rfl⟩ := h'
  obtain rfl := utf8_injective hEq
  rw [doc_unique hText hDoc hText' hDoc']

end Json
