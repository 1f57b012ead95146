import Proctor.ExamPolicy.RoundTrip

/-! # The exam policy codec

`decodeExamPolicySet` returns a policy whose encoding is the canonical form of the document exactly
when the three objects that are decoded without a member check spell their names exactly. The other
way round, a valid policy is returned exactly when its encoding fits and no family carries a field of
another family. -/
namespace Proctor.ExamPolicy

open Json Proctor.CanonicalJson List ExamPolicySet

theorem ExamPolicySet.validate_eq_ok_iff (p : ExamPolicySet) : p.validate = .ok () ↔
    p.native.validate ∧
      (p.focusLoss.minimumDuration.tmod millisecond = 0 ∧ p.focusLoss.window.tmod millisecond = 0) ∧
      p.schemaVersion = examPolicySchemaVersion ∧
      p.connectionLoss.outcome = integrityOutcomeFlagAndSuspend ∧
      (500 * millisecond ≤ p.focusLoss.minimumDuration ∧ p.focusLoss.minimumDuration ≤ 5 * minute) ∧
      (1 ≤ p.focusLoss.incidentCount ∧ p.focusLoss.incidentCount ≤ 100) ∧
      (10 * second ≤ p.focusLoss.window ∧ p.focusLoss.window ≤ 4 * hour ∧
        p.focusLoss.minimumDuration ≤ p.focusLoss.window) ∧
      (p.focusLoss.outcome = integrityOutcomeFlag ∨ p.focusLoss.outcome = integrityOutcomeFlagAndWarn ∨
        p.focusLoss.outcome = integrityOutcomeFlagAndSuspend) := by
  unfold validate
  split_ifs with hNative hWhole hSchema hConn hMin hCount hWin hOut
  · exact ⟨nofun, fun ⟨h, _⟩ => by rw [h] at hNative; cases hNative⟩
  · exact ⟨nofun, fun ⟨_, h, _⟩ => hWhole.elim (absurd h.1) (absurd h.2)⟩
  · exact ⟨nofun, fun ⟨_, _, h, _⟩ => hSchema h⟩
  · exact ⟨nofun, fun ⟨_, _, _, h, _⟩ => hConn h⟩
  · exact ⟨nofun, fun ⟨_, _, _, _, h, _⟩ => by omega⟩
  · exact ⟨nofun, fun ⟨_, _, _, _, _, h, _⟩ => by omega⟩
  · exact ⟨nofun, fun ⟨_, _, _, _, _, _, h, _⟩ => by omega⟩
  · refine ⟨fun _ => ⟨by simpa using hNative, by simpa using hWhole, not_not.mp hSchema,
      not_not.mp hConn, by omega, by omega, by omega, hOut⟩, fun _ => rfl⟩
  · exact ⟨nofun, fun ⟨_, _, _, _, _, _, _, h⟩ => hOut h⟩

theorem FocusLossPolicy.document_sort (p : FocusLossPolicy) : p.document.sort =
    .obj [("enabled", .bool p.enabled), ("incident_count", .int p.incidentCount),
      ("minimum_duration_milliseconds", .int (p.minimumDuration.tdiv millisecond)),
      ("outcome", .str p.outcome),
      ("window_milliseconds", .int (p.window.tdiv millisecond))] := by
  have hPerm (a b c d e : Text × Doc) : [a, c, b, e, d].Perm [a, b, c, d, e] :=
    .cons a ((List.Perm.swap b c _).trans (.cons b (.cons c (List.Perm.swap d e []))))
  refine (Doc.sort_obj (hPerm _ _ _ _ _) ?_).trans rfl
  simp only [map_cons, map_nil]
  decide

theorem ExamPolicySet.document_sort (p : ExamPolicySet) : p.document.sort =
    .obj [("connection_loss", p.connectionLoss.document),
      ("focus_loss", p.focusLoss.document.sort), ("native", p.native.document.sort)] := by
  have hPerm (a b c : Text × Doc) : [b, c, a].Perm [a, b, c] :=
    ((List.Perm.swap a c []).cons b).trans (List.Perm.swap a b [c])
  refine (Doc.sort_obj (hPerm _ _ _) ?_).trans rfl
  simp only [map_cons, map_nil]
  decide

theorem ExamPolicySet.milliseconds {p : ExamPolicySet} (h : p.validate = .ok ()) :
    p.focusLoss.minimumDuration.tdiv millisecond * millisecond = p.focusLoss.minimumDuration ∧
      p.focusLoss.window.tdiv millisecond * millisecond = p.focusLoss.window ∧
      (500 ≤ p.focusLoss.minimumDuration.tdiv millisecond ∧
        p.focusLoss.minimumDuration.tdiv millisecond ≤ 300000) ∧
      10000 ≤ p.focusLoss.window.tdiv millisecond ∧ p.focusLoss.window.tdiv millisecond ≤ 14400000 := by
  obtain ⟨-, ⟨hMin, hWin⟩, -, -, hMinimumBounds, -, hWindowBounds, -⟩ :=
    (validate_eq_ok_iff p).mp h
  have hMinimumDiv := Int.mul_tdiv_add_tmod p.focusLoss.minimumDuration millisecond
  have hWindowDiv := Int.mul_tdiv_add_tmod p.focusLoss.window millisecond
  simp only [millisecond, minute, second, hour] at *
  omega

theorem ExamPolicySet.document_conforms {p : ExamPolicySet} (h : p.validate = .ok ()) :
    Conforms p.document ∧ p.document.depth ≤ 5 := by
  obtain ⟨hNative, -, -, -, -, hCount, -, -⟩ := (validate_eq_ok_iff p).mp h
  obtain ⟨-, -, hMin, hWin⟩ := milliseconds h
  obtain ⟨hConf, hDepth⟩ := NativeSecurityPolicy.document_conforms hNative
  have hSafe {n : Int} (hLow : 0 ≤ n) (hHigh : n ≤ 14400000) : SafeInteger n := by
    have hBound : maxSafeInteger = 2 ^ 53 - 1 := rfl
    simp only [SafeInteger, hBound]
    omega
  have hConn : Conforms p.connectionLoss.document := by
    rw [ConnectionLossPolicy.document, Conforms, every_obj]
    refine ⟨by simp only [map_cons, map_nil]; decide, ?_⟩
    simp only [forall_mem_cons, not_mem_nil, false_imp_iff, implies_true, and_true]
    exact trivial
  have hFocus : Conforms p.focusLoss.document := by
    rw [FocusLossPolicy.document, Conforms, every_obj]
    refine ⟨by simp only [map_cons, map_nil]; decide, ?_⟩
    simp only [forall_mem_cons, not_mem_nil, false_imp_iff, implies_true, and_true]
    exact ⟨trivial, hSafe (by omega) (by omega), hSafe (by omega) (by omega),
      hSafe (by omega) (by omega), trivial⟩
  constructor
  · rw [document, Conforms, every_obj]
    refine ⟨by simp only [map_cons, map_nil]; decide, ?_⟩
    simp only [forall_mem_cons, not_mem_nil, false_imp_iff, implies_true, and_true]
    exact ⟨hConf, hConn, hFocus⟩
  · rw [document, Doc.depth, Nat.add_le_add_iff_right (n := 1) (k := 4),
      membersDepth_le_iff]
    simp only [forall_mem_cons, not_mem_nil, false_imp_iff, implies_true, and_true]
    exact ⟨hDepth, by simp [ConnectionLossPolicy.document, Doc.depth, membersDepth],
      by simp [FocusLossPolicy.document, Doc.depth, membersDepth]⟩

theorem encodeExamPolicySet_eq_ok_iff (p : ExamPolicySet) (bytes : Bytes) :
    encodeExamPolicySet p = .ok bytes ↔ p.validate = .ok () ∧
      size p.document.sort.text ≤ examPolicySetMaxBytes ∧ bytes = utf8 p.document.sort.text := by
  cases hValid : p.validate with
  | error e =>
    rw [encodeExamPolicySet, hValid]
    exact ⟨nofun, fun ⟨h, _⟩ => by cases h⟩
  | ok u =>
    obtain ⟨hConf, hDepth⟩ := document_conforms hValid
    have hEnc := encodeCanonicalExamDocument_eq_ok hConf (le_trans hDepth (by decide))
    rw [encodeExamPolicySet, hValid, hEnc]
    change (if examPolicySetMaxBytes < size p.document.sort.text then _ else _) = _ ↔ _
    split
    · exact ⟨nofun, fun ⟨_, h, _⟩ => by omega⟩
    rename_i hSize
    exact ⟨fun h => ⟨rfl, not_lt.mp hSize, (Except.ok.inj h).symm⟩,
      fun ⟨_, _, h⟩ => by rw [h]⟩

theorem requireJSONEOF_ws {rest : List Char} (h : Ws rest) : requireJSONEOF rest = .ok () := by
  rw [requireJSONEOF, if_pos (all_eq_true.mpr h)]

theorem PolicyWire.policy_eq_ok_iff (wire : PolicyWire) (p : ExamPolicySet) :
    wire.policy = .ok p ↔ ∃ native connectionOutcome focus,
      wire.complete = some (native, connectionOutcome, focus) ∧
      (500 ≤ focus.minimumDuration ∧ focus.minimumDuration ≤ 300000 ∧
        10000 ≤ focus.window ∧ focus.window ≤ 14400000) ∧
      p = policyOf native connectionOutcome focus ∧ p.validate = .ok () := by
  unfold PolicyWire.policy
  cases hComp : wire.complete with
  | none => exact ⟨nofun, fun ⟨_, _, _, h, _⟩ => by cases h⟩
  | some parts =>
    obtain ⟨native, connectionOutcome, focus⟩ := parts
    dsimp only
    split
    · rename_i hBounds
      refine ⟨nofun, ?_⟩
      rintro ⟨_, _, _, hSame, hInside, -⟩
      cases hSame
      omega
    · rename_i hBounds
      constructor
      · intro h
        cases hValid : (policyOf native connectionOutcome focus).validate with
        | error e => rw [hValid] at h; cases h
        | ok u =>
          rw [hValid] at h
          obtain rfl : policyOf native connectionOutcome focus = p := Except.ok.inj h
          exact ⟨native, connectionOutcome, focus, rfl, by omega, rfl, hValid⟩
      · rintro ⟨_, _, _, hSame, -, rfl, hValid⟩
        cases hSame
        rw [hValid]
        rfl

theorem decodeExamPolicySet_eq_ok_iff (data : Bytes) (p : ExamPolicySet) :
    decodeExamPolicySet data = .ok p ↔ ∃ doc wire, IsDocument data doc ∧
      data.length ≤ examPolicySetMaxBytes ∧ unmarshalStruct policyFields doc {} = some wire ∧
      wire.policy = .ok p := by
  unfold decodeExamPolicySet
  constructor
  · intro h
    split at h
    · cases h
    rename_i hLen
    split at h
    · cases h
    rename_i hValidate
    obtain ⟨doc, hDoc⟩ := (validateExamDocumentJSON_eq_ok_iff data).mp hValidate
    obtain ⟨tail, hDec, hTail⟩ := hDoc.decode
    rw [hDec] at h
    dsimp only at h
    split at h
    · cases h
    rename_i wire hWire
    rw [requireJSONEOF_ws hTail] at h
    exact ⟨doc, wire, hDoc, by omega, hWire, h⟩
  · rintro ⟨doc, wire, hDoc, hLen, hWire, hPol⟩
    obtain ⟨tail, hDec, hTail⟩ := hDoc.decode
    have hEmpty := hDoc.ne_nil
    rw [if_neg (by omega), (validateExamDocumentJSON_eq_ok_iff data).mpr ⟨doc, hDoc⟩, hDec]
    dsimp only
    rw [hWire, requireJSONEOF_ws hTail]
    exact hPol

end Proctor.ExamPolicy
