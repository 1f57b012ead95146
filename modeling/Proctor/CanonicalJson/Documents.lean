import Proctor.CanonicalJson.Accepts
import Proctor.Json.Marshal
import Proctor.Json.Sorted

/-! # Accepted documents and the other readers and writers

An accepted document is read by `json.Unmarshal` as the same document, and both the compact spelling
and the output of `json.Marshal` of a conforming document are accepted. -/
namespace Proctor.CanonicalJson

open Json

/-- Decided by running over the keys, not over all characters. -/
instance : DecidablePred AsciiDistinct := fun keys =>
  decidable_of_iff ((keys.all fun key => key.all fun c => c.toNat < 128) = true ∧ keys.Nodup) <| by
    simp only [AsciiDistinct, List.all_eq_true, decide_eq_true_eq]

variable {doc : Doc} {document : Bytes}

theorem conforms_sort (h : Conforms doc) : Conforms doc.sort :=
  Doc.Every.sort (fun _ _ hPerm hKeys =>
    ⟨fun key hKey => hKeys.1 key (hPerm.mem_iff.mpr hKey), hPerm.nodup_iff.mp hKeys.2⟩) doc h

theorem isDocument_text (h : Conforms doc) (hDepth : doc.depth ≤ maxDepth) :
    IsDocument (utf8 doc.text) doc :=
  ⟨doc.text, doc.tree, rfl, doc.jsonText_tree, doc.doc?_tree, h, hDepth⟩

theorem IsDocument.unique {a b : Doc} (ha : IsDocument document a)
    (hb : IsDocument document b) : a = b := by
  obtain ⟨text, tree, rfl, hText, hDoc, -⟩ := ha
  obtain ⟨text', tree', hEq, hText', hDoc', -⟩ := hb
  rw [← utf8_injective hEq] at hText'
  exact doc_unique hText hDoc hText' hDoc'

theorem IsDocument.decode (h : IsDocument document doc) :
    ∃ tail, Json.decode document = some (doc, tail) ∧ Ws tail := by
  obtain ⟨text, tree, rfl, hText, hDoc, -⟩ := h
  exact decode_complete hText hDoc

theorem IsDocument.conforms (h : IsDocument document doc) : Conforms doc ∧ doc.depth ≤ maxDepth := by
  obtain ⟨-, -, -, -, -, hConf, hDepth⟩ := h
  exact ⟨hConf, hDepth⟩

theorem isDocument_marshal (h : Conforms doc) (hDepth : doc.depth ≤ maxDepth) :
    IsDocument doc.marshal doc := by
  obtain ⟨text, tree, hMarshal, hText, hDoc⟩ := doc.marshal_text
  exact ⟨text, tree, hMarshal, hText, hDoc, h, hDepth⟩

theorem IsDocument.canonicalize (h : IsDocument document doc) :
    CanonicalJson.canonicalize document document.length = .ok (utf8 doc.sort.text) :=
  (canonicalize_eq_ok_iff document document.length _).mpr ⟨le_rfl, doc, h, rfl⟩

/-- The canonical form is no longer than the document and its own canonical form; every limit that
admits the document therefore admits its form. -/
theorem canonicalize_shrinks_to_fixed_point (document : Bytes) (maxBytes : Int) (out : Bytes)
    (h : canonicalize document maxBytes = .ok out) :
    out.length ≤ document.length ∧ canonicalize out out.length = .ok out ∧
      ∀ limit : Int, document.length ≤ limit → canonicalize document limit = .ok out := by
  obtain ⟨-, doc, hDoc, rfl⟩ := (canonicalize_eq_ok_iff document maxBytes out).mp h
  obtain ⟨hConf, hDepth⟩ := hDoc.conforms
  have hForm : IsDocument (utf8 doc.sort.text) doc.sort :=
    isDocument_text (conforms_sort hConf) (doc.depth_sort_le _ hDepth)
  have hFixed := hForm.canonicalize
  rw [Doc.sort_sort hConf.distinct] at hFixed
  exact ⟨hDoc.size_le, hFixed, fun limit hLimit => (canonicalize_eq_ok_iff _ _ _).mpr ⟨hLimit, doc, hDoc, rfl⟩⟩

/-- A nested document with its keys out of order, a space and an escape. -/
theorem canonicalize_shrinks_to_fixed_point_spaced :
    let document := utf8 "\x7b\"b\": [1],\"a\":\"\\u0041\"\x7d".toList
    let out := utf8 "\x7b\"a\":\"A\",\"b\":[1]\x7d".toList
    canonicalize document document.length = .ok out ∧ out.length ≤ document.length ∧
      canonicalize out out.length = .ok out := by
  intro document out
  have hOut : canonicalize document document.length = .ok out := by decide +kernel
  have hFixed := canonicalize_shrinks_to_fixed_point document document.length out hOut
  exact ⟨hOut, hFixed.1, hFixed.2.1⟩

end Proctor.CanonicalJson
