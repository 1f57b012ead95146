import Proctor.Json.Parse
import Proctor.CanonicalJson.ObjectCompleteness

/-! # What `Canonicalize` accepts and what it returns

`canonicalize_eq_ok_iff` is the specification of the whole function. The final length check of the
source never rejects, because the compact spelling is never longer than the document. -/
namespace Proctor.CanonicalJson

open Json

theorem next_eof {d : Decoder} (h : d.next = .error .eof) : d.rest.dropWhile isSpaceByte = [] := by
  unfold Decoder.next at h
  cases hRest : d.rest.dropWhile isSpaceByte with
  | nil => rfl
  | cons b rest =>
    rw [hRest] at h
    dsimp only at h
    repeat' split at h
    all_goals cases h

variable {tail : List Char} {doc : Doc} {document : Bytes}

theorem token_eof (h : Decoder.token ⟨utf8 tail, .topValue, []⟩ = .error .eof) : Ws tail := by
  have hDrop : (utf8 tail).dropWhile isSpaceByte = [] := by
    unfold Decoder.token at h
    split at h
    · rename_i hNext
      cases h
      exact next_eof hNext
    · cases h
    rename_i d hNext
    rw [← List.takeWhile_append_dropWhile (p := isWhitespace) (l := tail),
      next_ws (Ws.of_takeWhile tail)] at hNext
    have hStep := next_sound (trimmed_dropWhile tail) hNext
    generalize tail.dropWhile isWhitespace = rest at hStep
    cases hStep with
    | colon hs | elementComma hs | memberComma hs => cases hs
  rw [skipSpace] at hDrop
  have hNil : tail.dropWhile isWhitespace = [] := utf8_injective hDrop
  have hTail := Ws.of_takeWhile tail
  rwa [← List.takeWhile_append_dropWhile (p := isWhitespace) (l := tail), hNil, List.append_nil]

theorem token_of_ws (hTail : Ws tail) : Decoder.token ⟨utf8 tail, .topValue, []⟩ = .error .eof := by
  have hNext : Decoder.next ⟨utf8 tail, .topValue, []⟩ = .error .eof := by
    have hEmpty := next_ws hTail [] .topValue []
    rw [List.append_nil] at hEmpty
    rw [hEmpty]
    rfl
  rw [Decoder.token, hNext]

/-- The document is a JSON text of `doc`, and `doc` conforms and is not nested too deeply. -/
def IsDocument (document : Bytes) (doc : Doc) : Prop :=
  ∃ text tree, document = utf8 text ∧ JsonText tree text ∧ tree.doc? = some doc ∧ Conforms doc ∧
    doc.depth ≤ maxDepth

theorem fitsAt_zero : FitsAt 0 doc ↔ Conforms doc ∧ doc.depth ≤ maxDepth := by
  rw [FitsAt, Nat.zero_add]

section

variable (h : IsDocument document doc)
include h

theorem IsDocument.size_le :
    (utf8 doc.sort.text).length ≤ document.length := by
  obtain ⟨text, tree, rfl, hText, hDoc, -, -⟩ := h
  have hSize := size_le_of_padded (fun body hBody => size_text_le tree body doc hBody hDoc) hText
  rw [← Doc.size_sort doc] at hSize
  exact hSize

theorem IsDocument.validEscapes :
    validStringEscapes false document := by
  obtain ⟨text, tree, rfl, hText, hDoc, -, -⟩ := h
  have hScan := transparent_padded
    (fun body hBody => validStringEscapes_spells tree body doc hBody hDoc) hText []
  rw [List.append_nil] at hScan
  rw [hScan]
  rfl

theorem IsDocument.ne_nil : document.length ≠ 0 := by
  have hSize := h.size_le
  have hPos := List.length_pos_iff.mpr (sortedText_ne_nil doc)
  omega

end

theorem canonicalize_eq_ok_iff (document : Bytes) (maxBytes : Int) (out : Bytes) :
    canonicalize document maxBytes = .ok out ↔
      (document.length : Int) ≤ maxBytes ∧ ∃ doc, IsDocument document doc ∧ out = utf8 doc.sort.text := by
  constructor
  · intro h
    rw [canonicalize] at h
    split at h
    · cases h
    rename_i hLimit
    split at h
    · cases h
    rename_i hValid
    simp only [not_or, Bool.not_eq_true', Bool.not_eq_false] at hValid
    obtain ⟨-, hUtf8, hEscapes⟩ := hValid
    obtain ⟨text, rfl⟩ := (utf8Valid_iff document).mp hUtf8
    split at h
    · cases h
    rename_i encoded decoder hRead
    obtain ⟨lead, s', tree, body, tail, doc, rfl, hLead, hAllow, hTree, hDoc, hFits, rfl, rfl,
      -⟩ := readValue_sound _ text .topValue [] 0 encoded decoder (.inl rfl) (Nat.zero_le _)
        hEscapes hRead
    cases hLead with
    | space hw =>
      dsimp only [tokenValueEnd] at h
      split at h
      · rename_i hEof
        split at h
        · cases h
        cases h
        obtain ⟨hConf, hDepth⟩ := fitsAt_zero.mp hFits
        exact ⟨by omega, doc, ⟨_, tree, rfl, ⟨lead, body, tail, rfl, hw, token_eof hEof, hTree⟩,
          hDoc, hConf, hDepth⟩, rfl⟩
      · cases h
  · rintro ⟨hLimit, doc, hDocument, rfl⟩
    have hSize := hDocument.size_le
    have hEmpty := hDocument.ne_nil
    have hEscapes := hDocument.validEscapes
    obtain ⟨text, tree, rfl, ⟨lead, body, tail, rfl, hw, hTail, hTree⟩, hDoc, hConf, hDepth⟩ :=
      hDocument
    have hUtf8 : utf8Valid (utf8 (lead ++ body ++ tail)) := (utf8Valid_iff _).mpr ⟨_, rfl⟩
    have hLen : body.length ≤ (utf8 (lead ++ body ++ tail)).length := by
      have := length_le_size (lead ++ body ++ tail)
      simp only [List.length_append] at this
      unfold size at this
      omega
    have hRead := readValue_complete tree body doc hTree hDoc 0 (fitsAt_zero.mpr ⟨hConf, hDepth⟩)
      .topValue .topValue lead (.space hw) rfl [] tail (numberStop_of_ws hTail)
      (2 * (utf8 (lead ++ body ++ tail)).length + 2) (by omega)
    have hAccepted : ¬ ((utf8 (lead ++ body ++ tail)).length = 0 ∨
        (!utf8Valid (utf8 (lead ++ body ++ tail))) = true ∨
        (!validStringEscapes false (utf8 (lead ++ body ++ tail))) = true) := by
      rw [hUtf8, hEscapes]
      exact fun h => h.elim hEmpty (fun h => h.elim (by simp) (by simp))
    rw [canonicalize, if_neg (by omega), if_neg hAccepted, newDecoder, hRead]
    dsimp only [tokenValueEnd]
    rw [token_of_ws hTail]
    dsimp only
    rw [if_neg (by omega)]

/-- The inputs that `Canonicalize` accepts: documents of length `1..maxBytes` in UTF-8 that are one
JSON value with ASCII keys that are distinct after decoding, plain safe integers, paired surrogate
escapes and at most `maxDepth` nested containers. -/
theorem canonicalize_accepts_iff (document : Bytes) (maxBytes : Int) :
    (∃ out, canonicalize document maxBytes = .ok out) ↔
      1 ≤ document.length ∧ (document.length : Int) ≤ maxBytes ∧
        ∃ text tree doc, document = utf8 text ∧ JsonText tree text ∧ tree.doc? = some doc ∧
          doc.Every AsciiDistinct SafeInteger ∧ doc.depth ≤ maxDepth := by
  constructor
  · rintro ⟨out, hOut⟩
    obtain ⟨hLimit, doc, hDoc, -⟩ := (canonicalize_eq_ok_iff document maxBytes out).mp hOut
    have hEmpty := hDoc.ne_nil
    obtain ⟨text, tree, hText⟩ := hDoc
    exact ⟨by omega, hLimit, text, tree, doc, hText⟩
  · rintro ⟨-, hLimit, text, tree, doc, hText⟩
    exact ⟨_, (canonicalize_eq_ok_iff document maxBytes _).mpr ⟨hLimit, doc, ⟨text, tree, hText⟩, rfl⟩⟩

theorem Conforms.distinct (h : Conforms doc) : doc.Distinct :=
  Doc.Every.imp (fun _ hKeys => hKeys.2) (fun _ _ => trivial) doc h

theorem IsDocument.denotes (h : IsDocument document doc) : Denotes document doc.value := by
  obtain ⟨text, tree, hEq, hText, hDoc, -, -⟩ := h
  exact ⟨text, tree, doc, hEq, hText, hDoc, rfl⟩

theorem denotes_text (doc : Doc) : Denotes (utf8 doc.text) doc.value :=
  ⟨doc.text, doc.tree, doc, rfl, doc.jsonText_tree, doc.doc?_tree, rfl⟩

/-- Accepted documents have equal canonical forms exactly when they denote the same value, and the
canonical form is a JSON text of that value. -/
theorem canonicalize_eq_iff_same_value {d₁ d₂ o₁ o₂ : Bytes} {m₁ m₂ : Int}
    (h₁ : canonicalize d₁ m₁ = .ok o₁) (h₂ : canonicalize d₂ m₂ = .ok o₂) :
    ∃ v₁ v₂, (∀ v, Denotes d₁ v ↔ v = v₁) ∧ (∀ v, Denotes d₂ v ↔ v = v₂) ∧
      (o₁ = o₂ ↔ v₁ = v₂) ∧ ∀ v, Denotes o₁ v ↔ v = v₁ := by
  obtain ⟨-, doc₁, hDoc₁, rfl⟩ := (canonicalize_eq_ok_iff d₁ m₁ o₁).mp h₁
  obtain ⟨-, doc₂, hDoc₂, rfl⟩ := (canonicalize_eq_ok_iff d₂ m₂ o₂).mp h₂
  have hUnique {d : Bytes} {v : Value} (hd : Denotes d v) (v' : Value) : Denotes d v' ↔ v' = v :=
    ⟨fun h => denotes_unique h hd, fun h => h ▸ hd⟩
  have hDist₁ : doc₁.Distinct := by
    obtain ⟨_, _, -, -, -, hConf, -⟩ := hDoc₁
    exact hConf.distinct
  have hDist₂ : doc₂.Distinct := by
    obtain ⟨_, _, -, -, -, hConf, -⟩ := hDoc₂
    exact hConf.distinct
  refine ⟨doc₁.value, doc₂.value, hUnique hDoc₁.denotes, hUnique hDoc₂.denotes, ?_, ?_⟩
  · rw [Doc.value_eq_iff_sort_eq hDist₁ hDist₂]
    exact ⟨fun h => Doc.text_injective (utf8_injective h), fun h => by rw [h]⟩
  · rw [← Doc.value_sort doc₁ hDist₁]
    exact hUnique (denotes_text doc₁.sort)

theorem canonicalize_member_order :
    ∃ v₁ v₂, (∀ v, Denotes (utf8 "\x7b\"b\":1, \"\\u0061\":2\x7d".toList) v ↔ v = v₁) ∧
      (∀ v, Denotes (utf8 "\x7b\"a\":2,\"b\":1\x7d".toList) v ↔ v = v₂) ∧
      (utf8 "\x7b\"a\":2,\"b\":1\x7d".toList = utf8 "\x7b\"a\":2,\"b\":1\x7d".toList ↔ v₁ = v₂) ∧
      ∀ v, Denotes (utf8 "\x7b\"a\":2,\"b\":1\x7d".toList) v ↔ v = v₁ := by
  have hEscaped : canonicalize (utf8 "\x7b\"b\":1, \"\\u0061\":2\x7d".toList) 20 =
      .ok (utf8 "\x7b\"a\":2,\"b\":1\x7d".toList) := by
    decide +kernel
  have hSorted : canonicalize (utf8 "\x7b\"a\":2,\"b\":1\x7d".toList) 13 =
      .ok (utf8 "\x7b\"a\":2,\"b\":1\x7d".toList) := by
    decide +kernel
  exact canonicalize_eq_iff_same_value hEscaped hSorted

end Proctor.CanonicalJson
