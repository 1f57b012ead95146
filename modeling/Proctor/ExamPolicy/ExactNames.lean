import Proctor.ExamPolicy.Codec

/-! # Exact member names

The policy document itself, its `connection_loss` object and its `focus_loss` object are decoded
without comparing their members with the encoding, so a name in another case is accepted and
dropped. With exact names the document has the value of the decoded policy. -/
namespace Proctor.ExamPolicy

open Json Proctor.CanonicalJson List

def policyNames : List Text := ["native", "connection_loss", "focus_loss"]

def connectionNames : List Text := ["outcome"]

def focusNames : List Text :=
  ["enabled", "minimum_duration_milliseconds", "incident_count",
    "window_milliseconds", "outcome"]

local instance : LawfulBEq Text := inferInstance

def namesWithin (names : List Text) : Doc → Bool
  | .obj members => members.all fun m => m.1 ∈ names
  | _ => true

def exactNames (doc : Doc) : Bool :=
  namesWithin policyNames doc && match doc with
    | .obj members => members.all fun m =>
        (m.1 ≠ "connection_loss" || namesWithin connectionNames m.2) &&
          (m.1 ≠ "focus_loss" || namesWithin focusNames m.2)
    | _ => true

def exactDocumentNames (data : Bytes) : Bool :=
  match decode data with
  | none => true
  | some (doc, _) => exactNames doc

theorem exactNames_obj (members : List (Text × Doc)) : exactNames (.obj members) ↔
    ∀ m ∈ members, m.1 ∈ policyNames ∧
      (m.1 = "connection_loss" → namesWithin connectionNames m.2 = true) ∧
      (m.1 = "focus_loss" → namesWithin focusNames m.2 = true) := by
  simp only [exactNames, namesWithin, Bool.and_eq_true, all_eq_true, decide_eq_true_eq,
    Bool.or_eq_true, ← forall_and, Ne, ← imp_iff_not_or]

theorem native_owned : Owns policyFields "native"
    (unmarshalPointer {} fun doc _ => NativeSecurityPolicy.unmarshalJSON (utf8 doc.text)) (·.native) :=
  .own rfl <| .other nofun rfl <| .other nofun rfl .nil

theorem connectionLoss_owned : Owns policyFields "connection_loss"
    (unmarshalPointer {} (unmarshalStruct connectionFields)) (·.connectionLoss) :=
  .other nofun rfl <| .own rfl <| .other nofun rfl .nil

theorem focusLoss_owned : Owns policyFields "focus_loss"
    (unmarshalPointer {} (unmarshalStruct focusFields)) (·.focusLoss) :=
  .other nofun rfl <| .other nofun rfl <| .own rfl .nil

theorem connectionOutcome_owned : Owns connectionFields "outcome"
    (unmarshalPointer [] unmarshalString) (·.outcome) :=
  .own rfl .nil

theorem enabled_owned : Owns focusFields "enabled" (unmarshalPointer false unmarshalBool) (·.enabled) :=
  .own rfl <| .other nofun rfl <| .other nofun rfl <| .other nofun rfl <| .other nofun rfl .nil

theorem minimumDuration_owned : Owns focusFields "minimum_duration_milliseconds"
    (unmarshalPointer 0 unmarshalInt) (·.minimumDurationMilliseconds) :=
  .other nofun rfl <| .own rfl <| .other nofun rfl <| .other nofun rfl <| .other nofun rfl .nil

theorem incidentCount_owned : Owns focusFields "incident_count" (unmarshalPointer 0 unmarshalInt)
    (·.incidentCount) :=
  .other nofun rfl <| .other nofun rfl <| .own rfl <| .other nofun rfl <| .other nofun rfl .nil

theorem window_owned : Owns focusFields "window_milliseconds" (unmarshalPointer 0 unmarshalInt)
    (·.windowMilliseconds) :=
  .other nofun rfl <| .other nofun rfl <| .other nofun rfl <| .own rfl <| .other nofun rfl .nil

theorem focusOutcome_owned : Owns focusFields "outcome" (unmarshalPointer [] unmarshalString)
    (·.outcome) :=
  .other nofun rfl <| .other nofun rfl <| .other nofun rfl <| .other nofun rfl <| .own rfl .nil

variable {doc : Doc} {members : List (Text × Doc)} {outcome : Text} {focus : FocusLossPolicy}
   {wire : PolicyWire}

section

variable (hne : doc ≠ .null)
include hne

theorem str_of_ne_null {s : Text}
    (h : unmarshalString doc [] = some s) : doc = .str s := by
  cases doc with
  | null => exact absurd rfl hne
  | str t => rw [Option.some.inj h]
  | _ => cases h

theorem bool_of_ne_null {b : Bool}
    (h : unmarshalBool doc false = some b) : doc = .bool b := by
  cases doc with
  | null => exact absurd rfl hne
  | bool t => rw [Option.some.inj h]
  | _ => cases h

theorem int_of_ne_null {n : Int}
    (h : unmarshalInt doc 0 = some n) : doc = .int n := by
  cases doc with
  | null => exact absurd rfl hne
  | int k =>
    rw [unmarshalInt] at h
    split at h
    · rw [Option.some.inj h]
    · cases h
  | _ => cases h

theorem obj_of_ne_null {σ : Type} {fields : List (StructField σ)} {s s' : σ}
    (h : unmarshalStruct fields doc s = some s') :
    ∃ members, doc = .obj members ∧ unmarshalMembers fields members s = some s' := by
  cases doc with
  | null => exact absurd rfl hne
  | obj members => exact ⟨members, rfl, h⟩
  | _ => cases h

end

theorem exact_of_names {σ : Type} (fields : List (StructField σ)) (names : List Text)
    (hFields : fields.map StructField.name = names)
    (h : ∀ m ∈ members, m.1 ∈ names) : ∀ m ∈ members, ∃ f ∈ fields, f.name = m.1 := by
  intro m hm
  have hName := h m hm
  rw [← hFields] at hName
  exact mem_map.mp hName

theorem keys_nodup (h : Conforms (.obj members)) : (members.map Prod.fst).Nodup := by
  rw [Conforms, every_obj] at h
  exact h.1.2

theorem connection_value (hDoc : Conforms doc)
    (hNames : namesWithin connectionNames doc) (hne : doc ≠ .null) {wire : ConnectionWire}
    (h : unmarshalStruct connectionFields doc {} = some wire) (hOut : wire.outcome = some outcome) :
    doc.value = (ConnectionLossPolicy.document ⟨outcome⟩).value := by
  obtain ⟨members, rfl, hMems⟩ := obj_of_ne_null hne h
  simp only [namesWithin, all_eq_true, decide_eq_true_eq] at hNames
  have hExact := exact_of_names connectionFields connectionNames rfl hNames
  obtain ⟨value, hLookup, hValue, hStr⟩ :=
    connectionOutcome_owned.required hExact (keys_nodup hDoc) hMems rfl hOut
  refine congrArg Value.obj (memberValues_eq_expected hNames ?_)
  simp only [forall_mem_cons, not_mem_nil, false_imp_iff, implies_true, and_true]
  exact ⟨value, hLookup, by rw [str_of_ne_null hValue hStr]⟩

theorem tdiv_milliseconds (n : Int) : (n * millisecond).tdiv millisecond = n :=
  Int.mul_tdiv_cancel n (by decide)

structure FocusWire.Holds (wire : FocusWire) (focus : FocusLossPolicy) : Prop where
  enabled : wire.enabled = some focus.enabled
  minimumDuration : wire.minimumDurationMilliseconds = some focus.minimumDuration
  incidentCount : wire.incidentCount = some focus.incidentCount
  window : wire.windowMilliseconds = some focus.window
  outcome : wire.outcome = some focus.outcome

theorem focus_value (hDoc : Conforms doc) (hNames : namesWithin focusNames doc)
    (hne : doc ≠ .null) {wire : FocusWire} (h : unmarshalStruct focusFields doc {} = some wire)
    (hWire : wire.Holds focus) (native : NativeSecurityPolicy)
    (outcome : Text) : doc.value = (policyOf native outcome focus).focusLoss.document.value := by
  obtain ⟨members, rfl, hMems⟩ := obj_of_ne_null hne h
  simp only [namesWithin, all_eq_true, decide_eq_true_eq] at hNames
  have hExact := exact_of_names focusFields focusNames rfl hNames
  have hNodup := keys_nodup hDoc
  obtain ⟨enabled, hEnabled, hEnabled', hBool⟩ :=
    enabled_owned.required hExact hNodup hMems rfl hWire.enabled
  obtain ⟨minimum, hMin, hMin', hMinimumInt⟩ :=
    minimumDuration_owned.required hExact hNodup hMems rfl hWire.minimumDuration
  obtain ⟨count, hCount, hCount', hCountInt⟩ :=
    incidentCount_owned.required hExact hNodup hMems rfl hWire.incidentCount
  obtain ⟨window, hWin, hWin', hWindowInt⟩ :=
    window_owned.required hExact hNodup hMems rfl hWire.window
  obtain ⟨outcome, hOut, hOut', hStr⟩ :=
    focusOutcome_owned.required hExact hNodup hMems rfl hWire.outcome
  refine congrArg Value.obj (memberValues_eq_expected hNames ?_)
  simp only [forall_mem_cons, not_mem_nil, false_imp_iff, implies_true, and_true, policyOf,
    tdiv_milliseconds]
  exact ⟨⟨enabled, hEnabled, by rw [bool_of_ne_null hEnabled' hBool]⟩,
    ⟨minimum, hMin, by rw [int_of_ne_null hMin' hMinimumInt]⟩,
    ⟨count, hCount, by rw [int_of_ne_null hCount' hCountInt]⟩,
    ⟨window, hWin, by rw [int_of_ne_null hWin' hWindowInt]⟩,
    ⟨outcome, hOut, by rw [str_of_ne_null hOut' hStr]⟩⟩

theorem PolicyWire.complete_eq_some {native : NativeSecurityPolicy}
    (h : wire.complete = some (native, outcome, focus)) : wire.native = some native ∧
      (∃ connection, wire.connectionLoss = some connection ∧ connection.outcome = some outcome) ∧
      ∃ focusWire, wire.focusLoss = some focusWire ∧ focusWire.Holds focus := by
  simp only [PolicyWire.complete, Option.bind_eq_bind, Option.bind_eq_some_iff, Option.pure_def,
    Option.some.injEq, Prod.mk.injEq] at h
  obtain ⟨n, hNative, c, hConn, o, hOut, f, hFocus, e, hEnabled, m, hMin, i, hCount,
    w, hWin, fo, hFocusOutcome, rfl, rfl, rfl⟩ := h
  exact ⟨hNative, ⟨c, hConn, hOut⟩, f, hFocus,
    ⟨hEnabled, hMin, hCount, hWin, hFocusOutcome⟩⟩

theorem value_of_exactNames {data : Bytes} (hDoc : IsDocument data doc)
    (hWire : unmarshalStruct policyFields doc {} = some wire)
    {p : ExamPolicySet} (hPol : wire.policy = .ok p) (hNames : exactNames doc) :
    doc.value = p.document.value := by
  obtain ⟨native, outcome, focus, hComp, -, rfl, -⟩ :=
    (PolicyWire.policy_eq_ok_iff wire p).mp hPol
  obtain ⟨hNative, ⟨connection, hConn, hOut⟩, focusWire, hFocus, hHolds⟩ :=
    PolicyWire.complete_eq_some hComp
  obtain ⟨hConf, hDepth⟩ := hDoc.conforms
  have hne : doc ≠ .null := by
    rintro rfl
    cases hWire
    cases hNative
  obtain ⟨members, rfl, hMems⟩ := obj_of_ne_null hne hWire
  rw [exactNames_obj] at hNames
  have hExact := exact_of_names policyFields policyNames rfl
    fun m hm => (hNames m hm).1
  have hNodup := keys_nodup hConf
  obtain ⟨nativeDoc, hNativeDoc, -, hNativeJSON⟩ :=
    native_owned.required hExact hNodup hMems rfl hNative
  obtain ⟨connectionDoc, hConnectionDoc, hConnectionNe, hConnectionStruct⟩ :=
    connectionLoss_owned.required hExact hNodup hMems rfl hConn
  obtain ⟨focusDoc, hFocusDoc, hFocusNe, hFocusStruct⟩ :=
    focusLoss_owned.required hExact hNodup hMems rfl hFocus
  have hMember {name : Text} {d : Doc} (h : members.lookup name = some d) :=
    conforms_member hConf hDepth (mem_of_lookup h)
  have hConnectionValue := connection_value (hMember hConnectionDoc).conforms.1
    ((hNames _ (mem_of_lookup hConnectionDoc)).2.1 rfl) hConnectionNe hConnectionStruct hOut
  have hFocusValue := focus_value (hMember hFocusDoc).conforms.1
    ((hNames _ (mem_of_lookup hFocusDoc)).2.2 rfl) hFocusNe hFocusStruct hHolds native outcome
  refine congrArg Value.obj (memberValues_eq_expected (fun m hm => (hNames m hm).1) ?_)
  simp only [forall_mem_cons, not_mem_nil, false_imp_iff, implies_true, and_true]
  exact ⟨⟨nativeDoc, hNativeDoc,
      NativeSecurityPolicy.value_of_unmarshalJSON (hMember hNativeDoc) hNativeJSON⟩,
    ⟨connectionDoc, hConnectionDoc, hConnectionValue⟩, focusDoc, hFocusDoc, hFocusValue⟩

end Proctor.ExamPolicy
