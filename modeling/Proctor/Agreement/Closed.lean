import Proctor.ExamPolicy.NativeCodec
import Proctor.Json.Codec

/-!
# Closed documents

A closed document is decoded and encoded again, and it is accepted only when the
canonical form of what was encoded is its own. The decoder of a nested type is
handed the compact spelling of its value. In a canonical document that is the
spelling that stands there; in any other one it is no longer than it.
-/

namespace Proctor.Agreement

open Json CanonicalJson ExamPolicy Option

variable {α : Type}

def encodeCanonicalExamRaw (data : Bytes) : Option Bytes := do
  let (doc, _) ← decode data
  (encodeCanonicalExamDocument doc).toOption

/-- `encodeCanonicalExamDocument` of a value whose type has the codec. -/
def encodeCanonical (c : Codec α) (value : α) : Option Bytes := do
  let doc ← c.marshal value
  (encodeCanonicalExamDocument doc).toOption

def encodesWithin (c : Codec α) (value : α) (maximum : Nat) : Bool :=
  (encodeCanonical c value).any fun raw => raw.length ≤ maximum

def decodeClosedDeliveryDeclaration (c : Codec α) (raw : Bytes) (maximum : Nat) : Option α :=
    readDocument raw maximum fun doc => do
  let target ← c.unmarshal doc c.zero
  let actual ← encodeCanonicalExamRaw raw
  let expected ← encodeCanonical c target
  if actual = expected then some target else none

variable {doc : Doc} {out raw : Bytes} {c : Codec α} {v : α}

theorem encodeCanonicalExamDocument_eq_some_iff :
    (encodeCanonicalExamDocument doc).toOption = some out ↔
      Conforms doc ∧ doc.depth ≤ maxDepth ∧ out = utf8 doc.sort.text := by
  constructor
  · intro h
    cases hEnc : encodeCanonicalExamDocument doc with
    | error fault =>
      rw [hEnc] at h
      cases h
    | ok bytes =>
      obtain rfl : bytes = out := by
        rw [hEnc] at h
        exact Option.some.inj h
      obtain ⟨-, doc', hDoc, rfl⟩ := (canonicalize_eq_ok_iff _ _ _).mp hEnc
      obtain ⟨text, tree, hMarshal, hText, hTree⟩ := doc.marshal_text
      obtain ⟨text', tree', hMarshal', hText', hTree', hConf, hDepth⟩ := hDoc
      -- the output of `json.Marshal` is a JSON text of one document only
      rw [← utf8_injective (hMarshal.symm.trans hMarshal')] at hText'
      obtain rfl := doc_unique hText hTree hText' hTree'
      exact ⟨hConf, hDepth, rfl⟩
  · rintro ⟨hConf, hDepth, rfl⟩
    rw [encodeCanonicalExamDocument_eq_ok hConf hDepth]
    rfl

theorem encodeCanonical_eq_some_iff :
    encodeCanonical c v = some out ↔ ∃ d, c.marshal v = some d ∧ Conforms d ∧
      d.depth ≤ maxDepth ∧ out = utf8 d.sort.text := by
  rw [encodeCanonical, bind_eq_bind, bind_eq_some_iff]
  simp only [encodeCanonicalExamDocument_eq_some_iff]

theorem encodeCanonicalExamRaw_of_isDocument (h : IsDocument raw doc) :
    encodeCanonicalExamRaw raw = some (utf8 doc.sort.text) := by
  obtain ⟨tail, hDec, -⟩ := h.decode
  rw [encodeCanonicalExamRaw, hDec]
  exact encodeCanonicalExamDocument_eq_some_iff.mpr ⟨h.conforms.1, h.conforms.2, rfl⟩

theorem decodeClosedDeliveryDeclaration_eq_some_iff {maximum : Nat} :
    decodeClosedDeliveryDeclaration c raw maximum = some v ↔
      raw.length ≤ maximum ∧ ∃ doc, IsDocument raw doc ∧ c.unmarshal doc c.zero = some v ∧
        encodeCanonical c v = some (utf8 doc.sort.text) := by
  refine readDocument_eq_some_iff.trans
    (and_congr_right' (exists_congr fun doc => and_congr_right fun hDoc => ?_))
  simp only [encodeCanonicalExamRaw_of_isDocument hDoc, bind_eq_bind, bind_some, bind_eq_some_iff,
    ite_none_right_eq_some, Option.some.injEq]
  constructor
  · rintro ⟨target, hTarget, expected, hExpected, rfl, rfl⟩
    exact ⟨hTarget, hExpected⟩
  · rintro ⟨hTarget, hExpected⟩
    exact ⟨v, hTarget, _, hExpected, rfl, rfl⟩

theorem isDocument_text_iff {doc' : Doc} :
    IsDocument (utf8 doc.text) doc' ↔ doc' = doc ∧ Conforms doc ∧ doc.depth ≤ maxDepth := by
  constructor
  · rintro ⟨text, tree, hSpelled, hText, hTree, hConf, hDepth⟩
    rw [← utf8_injective hSpelled] at hText
    obtain rfl := doc_unique hText hTree doc.jsonText_tree doc.doc?_tree
    exact ⟨rfl, hConf, hDepth⟩
  · rintro ⟨rfl, hConf, hDepth⟩
    exact isDocument_text hConf hDepth

theorem decodeClosedDeliveryDeclaration_sort {maximum : Nat} (hDoc : IsDocument raw doc)
    (h : decodeClosedDeliveryDeclaration c raw maximum = some v) :
    decodeClosedDeliveryDeclaration c (utf8 doc.sort.text) maximum = some v := by
  obtain ⟨hLen, doc', hDoc', hRead, hWritten⟩ :=
    decodeClosedDeliveryDeclaration_eq_some_iff.mp h
  obtain rfl := hDoc'.unique hDoc
  obtain ⟨hConf, hDepth⟩ := hDoc.conforms
  obtain ⟨d, hd, hdConforms, -, hSame⟩ := encodeCanonical_eq_some_iff.mp hWritten
  have hSort : d.sort = doc'.sort := (Doc.text_injective (utf8_injective hSame)).symm
  have hValue : d.value = doc'.value :=
    (Doc.value_eq_iff_sort_eq hdConforms.distinct hConf.distinct).mpr hSort
  refine decodeClosedDeliveryDeclaration_eq_some_iff.mpr
    ⟨le_trans hDoc.size_le hLen, doc'.sort, ?_, c.stable hConf.distinct hRead hd hValue, ?_⟩
  · exact isDocument_text (conforms_sort hConf) (doc'.depth_sort_le _ hDepth)
  · rw [Doc.sort_sort hConf.distinct]
    exact hWritten

/-- `UnmarshalJSON` of a type that is decoded as a closed document of the type `c`, without methods,
and validated. -/
def unmarshalClosed (c : Codec α) (maximum : Nat) (valid : α → Bool) (raw : Bytes) : Option α :=
  (decodeClosedDeliveryDeclaration c raw maximum).filter valid

def closed (c : Codec α) (maximum : Nat) (valid : α → Bool) : Codec α where
  zero := c.zero
  unmarshal := fun doc _ => unmarshalClosed c maximum valid (utf8 doc.text)
  marshal := c.marshal
  stable := by
    intro doc d v _ hRead _ _
    obtain ⟨hDecoded, hValid⟩ := Option.filter_eq_some_iff.mp hRead
    obtain ⟨-, doc', hDoc, -⟩ := decodeClosedDeliveryDeclaration_eq_some_iff.mp hDecoded
    obtain ⟨rfl, -, -⟩ := isDocument_text_iff.mp hDoc
    exact Option.filter_eq_some_iff.mpr
      ⟨decodeClosedDeliveryDeclaration_sort hDoc hDecoded, hValid⟩

/-- A type as `encoding/json` sees it, with its own `MarshalJSON`, and its `UnmarshalJSON`. -/
structure Methods (α : Type) where
  codec : Codec α
  unmarshalJSON : Bytes → Option α

def closedMethods (c : Codec α) (maximum : Nat) (valid : α → Bool) : Methods α :=
  ⟨closed c maximum valid, unmarshalClosed c maximum valid⟩

end Proctor.Agreement
