import Proctor.Json.Sorted
import Proctor.Json.Unmarshal

/-! # Codecs of struct types

A codec pairs the reflective decoder of a type with its encoder. Its law is what a closed document
needs: if a document is decoded to a value whose encoding denotes what the document denotes, then
the sorted document is decoded to the same value. A row is the field list of a struct, built field
by field, and the values of its fields are kept in nested pairs. -/
namespace Json

open List Option Doc
open Prod (fst)

structure Codec (α : Type) where
  zero : α
  unmarshal : Doc → α → Option α
  marshal : α → Option Doc
  stable : ∀ {doc d : Doc} {v : α}, doc.Distinct → unmarshal doc zero = some v →
    marshal v = some d → d.value = doc.value → unmarshal doc.sort zero = some v

namespace Codec

variable {α β : Type}

def scalar (zero : α) (unmarshal : Doc → α → Option α) (marshal : α → Option Doc)
    (hArr : ∀ elements, unmarshal (.arr elements) zero = none)
    (hObj : ∀ members, unmarshal (.obj members) zero = none) : Codec α where
  zero := zero
  unmarshal := unmarshal
  marshal := marshal
  stable := by
    intro doc d v _ hRead _ _
    cases doc with
    | arr elements => rw [hArr] at hRead; cases hRead
    | obj members => rw [hObj] at hRead; cases hRead
    | _ => exact hRead

def string : Codec (List Char) :=
  scalar [] unmarshalString (fun s => some (.str s)) (fun _ => rfl) fun _ => rfl

def bool : Codec Bool :=
  scalar false unmarshalBool (fun b => some (.bool b)) (fun _ => rfl) fun _ => rfl

def int : Codec Int :=
  scalar 0 unmarshalInt (fun n => some (.int n)) (fun _ => rfl) fun _ => rfl

theorem mapM_stable (c : Codec α) {elements ds : List Doc} {vs : List α}
    (hDist : ∀ e ∈ elements, e.Distinct)
    (hRead : elements.mapM (fun doc => c.unmarshal doc c.zero) = some vs)
    (hWrite : vs.mapM c.marshal = some ds) (hValue : ds.map value = elements.map value) :
    (elements.map sort).mapM (fun doc => c.unmarshal doc c.zero) = some vs := by
  induction elements generalizing vs ds with
  | nil => exact hRead
  | cons e rest ih =>
    simp only [mapM_cons, bind_eq_bind, bind_eq_some_iff, Option.pure_def,
      Option.some.injEq] at hRead
    obtain ⟨v, hFirst, ws, hRest, rfl⟩ := hRead
    simp only [mapM_cons, bind_eq_bind, bind_eq_some_iff, Option.pure_def,
      Option.some.injEq] at hWrite
    obtain ⟨d, hd, others, hOthers, rfl⟩ := hWrite
    rw [map_cons, map_cons, List.cons.injEq] at hValue
    have hHead := c.stable (hDist e (by simp)) hFirst hd hValue.1
    have hTail := ih (fun e' he' => hDist e' (by simp [he'])) hRest hOthers hValue.2
    simp [hHead, hTail]

def slice (c : Codec α) : Codec (Option (List α)) where
  zero := none
  unmarshal := unmarshalSlice c.zero c.unmarshal
  marshal
    | none => some .null
    | some vs => (vs.mapM c.marshal).map .arr
  stable := by
    intro doc d v hDistinct hRead hWrite hValue
    cases doc with
    | null => exact hRead
    | arr elements =>
      obtain ⟨vs, hElements, rfl⟩ := Option.map_eq_some_iff.mp hRead
      obtain ⟨ds, hds, rfl⟩ := Option.map_eq_some_iff.mp hWrite
      rw [Doc.Distinct, every_arr] at hDistinct
      have hValues : ds.map Doc.value = elements.map Doc.value := by
        simpa [Doc.value, elementValues_eq_map] using hValue
      rw [Doc.sort, sortElements_eq_map, unmarshalSlice,
        c.mapM_stable hDistinct hElements hds hValues]
      rfl
    | _ => cases hRead

def pointer (c : Codec α) : Codec (Option α) where
  zero := none
  unmarshal := unmarshalPointer c.zero c.unmarshal
  marshal
    | none => some .null
    | some v => c.marshal v
  stable := by
    intro doc d v hDistinct hRead hWrite hValue
    by_cases hNull : doc = .null
    · subst hNull
      exact hRead
    · have hSorted : doc.sort ≠ .null := by
        cases doc with
        | null => exact absurd rfl hNull
        | _ => simp [Doc.sort]
      rw [unmarshalPointer_of_ne_null hNull] at hRead
      obtain ⟨w, hw, rfl⟩ := Option.map_eq_some_iff.mp hRead
      rw [unmarshalPointer_of_ne_null hSorted]
      exact Option.map_eq_some_iff.mpr ⟨w, c.stable hDistinct hw hWrite hValue, rfl⟩

def via (c : Codec α) (pack : α → β) (unpack : β → α) (hUnpack : ∀ a, unpack (pack a) = a) :
    Codec β where
  zero := pack c.zero
  unmarshal := fun doc b => (c.unmarshal doc (unpack b)).map pack
  marshal := fun b => c.marshal (unpack b)
  stable := by
    intro doc d v hDistinct hRead hWrite hValue
    rw [hUnpack] at hRead ⊢
    obtain ⟨a, ha, rfl⟩ := Option.map_eq_some_iff.mp hRead
    rw [hUnpack] at hWrite
    exact Option.map_eq_some_iff.mpr ⟨a, c.stable hDistinct ha hWrite hValue, rfl⟩

def guarded (c : Codec α) (valid : α → Bool) : Codec α where
  zero := c.zero
  unmarshal := c.unmarshal
  marshal := fun v => if valid v then c.marshal v else none
  stable := by
    intro doc d v hDistinct hRead hWrite hValue
    exact c.stable hDistinct hRead (Option.ite_none_right_eq_some.mp hWrite).2 hValue

end Codec

/-! ## Rows -/

/-- `Reads` says what is decoded from the members of an object, each found by its exact name. -/
structure Row (names : List (List Char)) (σ : Type) where
  zero : σ
  fields : List (StructField σ)
  members : σ → Option (List (List Char × Doc))
  Reads : (List Char → Option Doc) → σ → σ → Prop
  names_eq : fields.map StructField.name = names
  within : ∀ {v : σ} {written : List (List Char × Doc)}, members v = some written →
    ∀ m ∈ written, m.1 ∈ names
  congr : ∀ {look look' : List Char → Option Doc} {s v : σ}, (∀ name ∈ names, look name = look' name) →
    Reads look s v → Reads look' s v
  reads_iff : ∀ {given : List (List Char × Doc)} {s v : σ}, (∀ m ∈ given, m.1 ∈ names) →
    (given.map fst).Nodup →
    (unmarshalMembers fields given s = some v ↔ Reads (given.lookup ·) s v)
  stable : ∀ {look : List Char → Option Doc} {written : List (List Char × Doc)} {v : σ},
    (∀ name doc, look name = some doc → doc.Distinct) → Reads look zero v →
    members v = some written →
    (∀ name ∈ names, (written.lookup name).map Doc.value = (look name).map Doc.value) →
    Reads (fun name => (look name).map Doc.sort) zero v

namespace Row

variable {α σ : Type} {names : List (List Char)}

def nil : Row [] Unit where
  zero := ()
  fields := []
  members := fun _ => some []
  Reads := fun _ _ _ => True
  names_eq := rfl
  within := by
    intro v written hWritten
    cases hWritten
    nofun
  congr := fun _ h => h
  reads_iff := by
    intro given s v hExact _
    cases given with
    | nil => exact ⟨fun _ => trivial, fun _ => rfl⟩
    | cons m rest => exact absurd (hExact m (by simp)) (by simp)
  stable := fun _ h _ _ => h

def headField (name : List Char) (c : Codec α) : StructField (α × σ) :=
  ⟨name, fun doc s => (c.unmarshal doc s.1).map fun a => (a, s.2)⟩

def tailField (f : StructField σ) : StructField (α × σ) :=
  ⟨f.name, fun doc s => (f.store doc s.2).map fun t => (s.1, t)⟩

/-- What the member of one field decodes to; without it the field keeps what it held. -/
def FieldReads (c : Codec α) (found : Option Doc) (a b : α) : Prop :=
  match found with
  | none => b = a
  | some doc => c.unmarshal doc a = some b

theorem lookupField_head (name : List Char) (c : Codec α) (rest : List (StructField (α × σ))) :
    lookupField (headField name c :: rest) name = some (headField name c) := by
  simp [lookupField, headField]

variable {key name : List Char} {given : List (List Char × Doc)}

theorem lookupField_tail {c : Codec α} {rest : List (StructField σ)}
    (hKey : key ≠ name) (hMem : key ∈ rest.map StructField.name) : ∃ f, lookupField rest key = some f ∧
      lookupField (headField name c :: rest.map tailField) key = some (tailField f : StructField (α × σ)) := by
  obtain ⟨g, hg, rfl⟩ := mem_map.mp hMem
  obtain ⟨f, -, -, hLookup⟩ := lookupField_exact hg rfl
  have hFind : rest.find? (fun f => f.name = g.name) = some f := by
    have hSome : (rest.find? fun f => f.name = g.name).isSome := by
      rw [find?_isSome]
      exact ⟨g, hg, by simp⟩
    obtain ⟨f', hf'⟩ := isSome_iff_exists.mp hSome
    rw [lookupField, hf', some_or] at hLookup
    rw [hf', hLookup]
  refine ⟨f, hLookup, ?_⟩
  have hSkip : name ≠ g.name := fun h => hKey h.symm
  simp only [lookupField, find?_cons, headField, hSkip, decide_false, find?_map]
  have hSame : ((fun f : StructField (α × σ) => decide (f.name = g.name)) ∘ tailField) =
      fun f : StructField σ => decide (f.name = g.name) := rfl
  rw [hSame, hFind]
  rfl

theorem unmarshalMembers_field (name : List Char) (c : Codec α) (rest : List (StructField σ)) {a b : α}
    {s t : σ} (hExact : ∀ m ∈ given, m.1 = name ∨ m.1 ∈ rest.map StructField.name)
    (hNodup : (given.map fst).Nodup) :
    unmarshalMembers (headField name c :: rest.map tailField) given (a, s) = some (b, t) ↔
      FieldReads c (given.lookup name) a b ∧
        unmarshalMembers rest (given.filter fun m => m.1 ≠ name) s = some t := by
  induction given generalizing a s with
  | nil => simp [unmarshalMembers, FieldReads, eq_comm]
  | cons m others ih =>
    obtain ⟨key, doc⟩ := m
    rw [map_cons, nodup_cons] at hNodup
    have hOthers := fun a s => @ih a s (fun m hm => hExact m (by simp [hm])) hNodup.2
    by_cases hKey : key = name
    · subst hKey
      have hAbsent : others.lookup key = none := by
        rw [lookup_eq_none_iff]
        intro m hm
        rw [bne_iff_ne]
        exact fun hSame => hNodup.1 (mem_map.mpr ⟨m, hm, hSame.symm⟩)
      rw [unmarshalMembers, lookupField_head]
      simp only [headField, bind_eq_bind, bind_some, bind_map,
        bind_eq_some_iff, Function.comp_apply, lookup_cons_self, FieldReads,
        filter_cons, ne_eq, not_true_eq_false, decide_false, Bool.false_eq_true, if_false]
      constructor
      · rintro ⟨a', ha', hRest⟩
        obtain ⟨hSame, hTail⟩ := (hOthers a' s).mp hRest
        rw [hAbsent] at hSame
        obtain rfl : b = a' := hSame
        exact ⟨ha', hTail⟩
      · rintro ⟨ha', hTail⟩
        refine ⟨b, ha', (hOthers b s).mpr ⟨?_, hTail⟩⟩
        rw [hAbsent]
        exact rfl
    · have hMem : key ∈ rest.map StructField.name :=
        (hExact (key, doc) (by simp)).resolve_left hKey
      obtain ⟨f, hRest, hLookup⟩ := lookupField_tail (c := c) hKey hMem
      have hSkip : ((key, doc) :: others).lookup name = others.lookup name := by
        rw [lookup_cons, beq_eq_false_iff_ne.mpr fun h => hKey h.symm]
      simp only [unmarshalMembers, hLookup, tailField, bind_eq_bind, bind_some,
        bind_map, bind_eq_some_iff, Function.comp_apply, hSkip, filter_cons,
        ne_eq, hKey, not_false_eq_true, decide_true, if_true, hRest]
      constructor
      · rintro ⟨s', hs', hTail⟩
        obtain ⟨hHead, hTail⟩ := (hOthers a s').mp hTail
        exact ⟨hHead, s', hs', hTail⟩
      · rintro ⟨hHead, s', hs', hTail⟩
        exact ⟨s', hs', (hOthers a s').mpr ⟨hHead, hTail⟩⟩

theorem lookup_filter_ne (hKey : key ≠ name) :
    (given.filter fun m => m.1 ≠ name).lookup key = given.lookup key := by
  induction given with
  | nil => rfl
  | cons m others ih =>
    obtain ⟨other, doc⟩ := m
    by_cases hOther : other = name
    · simp [hOther, lookup_cons, beq_eq_false_iff_ne.mpr hKey, ← ih]
    · simp [hOther, lookup_cons, ← ih]

/-- A field before the others. An `omitted` value is not written, as `omitempty` leaves out an empty
one. -/
def omitempty (name : String) (omitted : α → Bool) (c : Codec α) (rest : Row names σ)
    (hFresh : name.toList ∉ names := by
      simp only [List.mem_cons, String.toList_inj, String.reduceEq, List.not_mem_nil, or_self,
        not_false_eq_true]) : Row (name.toList :: names) (α × σ) where
  zero := (c.zero, rest.zero)
  fields := headField name.toList c :: rest.fields.map tailField
  members := fun v => do
    let others ← rest.members v.2
    if omitted v.1 then return others
    else do
      let doc ← c.marshal v.1
      return (name.toList, doc) :: others
  Reads := fun look s v => FieldReads c (look name.toList) s.1 v.1 ∧ rest.Reads look s.2 v.2
  names_eq := by
    rw [List.map_cons, List.map_map]
    exact congrArg (name.toList :: ·) rest.names_eq
  within := by
    intro v written hWritten m hm
    simp only [Option.bind_eq_bind, Option.bind_eq_some_iff] at hWritten
    obtain ⟨others, hOthers, hWritten⟩ := hWritten
    split at hWritten
    · cases hWritten
      exact List.mem_cons_of_mem _ (rest.within hOthers m hm)
    · obtain ⟨doc, -, hWritten⟩ := Option.bind_eq_some_iff.mp hWritten
      cases hWritten
      rcases List.mem_cons.mp hm with rfl | hm
      · exact List.mem_cons_self
      · exact List.mem_cons_of_mem _ (rest.within hOthers m hm)
  congr := by
    intro look look' s v hSame hReads
    refine ⟨hSame name.toList List.mem_cons_self ▸ hReads.1, ?_⟩
    exact rest.congr (fun key hKey => hSame key (List.mem_cons_of_mem _ hKey)) hReads.2
  reads_iff := by
    intro given s v hExact hNodup
    have hSplit := unmarshalMembers_field (b := v.1) (t := v.2) (a := s.1) (s := s.2) name.toList c
      rest.fields (fun m hm => by
        rw [rest.names_eq]
        exact List.mem_cons.mp (hExact m hm)) hNodup
    refine hSplit.trans (and_congr_right fun _ => ?_)
    have hNe : ∀ key ∈ names, key ≠ name.toList := fun key hKey h => hFresh (h ▸ hKey)
    rw [rest.reads_iff]
    · constructor
      · exact rest.congr fun key hKey => lookup_filter_ne (hNe key hKey)
      · exact rest.congr fun key hKey => (lookup_filter_ne (hNe key hKey)).symm
    · intro m hm
      obtain ⟨hMem, hNe⟩ := List.mem_filter.mp hm
      exact (List.mem_cons.mp (hExact m hMem)).resolve_left (by simpa using hNe)
    · exact hNodup.sublist (List.filter_sublist.map fst)
  stable := by
    intro look written v hDistinct hReads hWritten hValues
    simp only [Option.bind_eq_bind, Option.bind_eq_some_iff] at hWritten
    obtain ⟨others, hOthers, hWritten⟩ := hWritten
    have hAbsent : others.lookup name.toList = none := by
      rw [List.lookup_eq_none_iff]
      intro m hm
      rw [bne_iff_ne]
      exact fun hSame => hFresh (hSame ▸ rest.within hOthers m hm)
    have hNe : ∀ key ∈ names, key ≠ name.toList := fun key hKey h => hFresh (h ▸ hKey)
    have hHead := hValues name.toList List.mem_cons_self
    have hRest : ∀ key ∈ names, (others.lookup key).map Doc.value = (look key).map Doc.value := by
      intro key hKey
      rw [← hValues key (List.mem_cons_of_mem _ hKey)]
      split at hWritten
      · cases hWritten
        rfl
      · obtain ⟨doc, -, hWritten⟩ := Option.bind_eq_some_iff.mp hWritten
        cases hWritten
        rw [List.lookup_cons, beq_eq_false_iff_ne.mpr (hNe key hKey)]
    refine ⟨?_, rest.stable hDistinct hReads.2 hOthers hRest⟩
    have hRead := hReads.1
    change FieldReads c ((look name.toList).map Doc.sort) c.zero v.1
    cases hLook : look name.toList with
    | none =>
      rw [hLook] at hRead
      exact hRead
    | some doc =>
      rw [hLook] at hRead hHead
      split at hWritten
      · cases hWritten
        rw [hAbsent] at hHead
        cases hHead
      · obtain ⟨d, hd, hWritten⟩ := Option.bind_eq_some_iff.mp hWritten
        cases hWritten
        rw [List.lookup_cons_self, Option.map_some, Option.map_some, Option.some.injEq] at hHead
        exact c.stable (hDistinct _ _ hLook) hRead hd hHead

/-- A field that is always written. -/
abbrev field (name : String) (c : Codec α) (rest : Row names σ)
    (hFresh : name.toList ∉ names := by
      simp only [List.mem_cons, String.toList_inj, String.reduceEq, List.not_mem_nil, or_self,
        not_false_eq_true]) : Row (name.toList :: names) (α × σ) :=
  rest.omitempty name (fun _ => false) c hFresh

end Row

/-! ## Decoders that do not see the order of members -/

def Codec.Plain {α : Type} (c : Codec α) : Prop :=
  ∀ doc a, c.unmarshal doc.sort a = c.unmarshal doc a

theorem Codec.plain_string : Codec.string.Plain := by
  intro doc a
  cases doc <;> rfl

theorem Codec.plain_bool : Codec.bool.Plain := by
  intro doc a
  cases doc <;> rfl

theorem Codec.Plain.slice {α : Type} {c : Codec α} (h : c.Plain) : c.slice.Plain := by
  intro doc a
  cases doc with
  | arr elements =>
    have hSame : (elements.map sort).mapM (fun doc => c.unmarshal doc c.zero) =
        elements.mapM fun doc => c.unmarshal doc c.zero := by
      rw [mapM_map]
      exact congrArg (elements.mapM ·) (funext fun doc => h doc c.zero)
    rw [sort, sortElements_eq_map]
    exact congrArg (Option.map some) hSame
  | _ => rfl

namespace Row

variable {α σ β : Type} {names : List (List Char)}

def Plain (row : Row names σ) : Prop :=
  ∀ look s v, row.Reads look s v → row.Reads (fun name => (look name).map Doc.sort) s v

theorem plain_nil : nil.Plain := fun _ _ _ h => h

theorem Plain.field {name : String} {c : Codec α} {rest : Row names σ} {hFresh : name.toList ∉ names}
    (hc : c.Plain) (hRest : rest.Plain) : (Row.field name c rest hFresh).Plain := by
  intro look s v hReads
  refine ⟨?_, hRest look s.2 v.2 hReads.2⟩
  have hRead := hReads.1
  change FieldReads c ((look name.toList).map sort) s.1 v.1
  cases hLook : look name.toList with
  | none =>
    rw [hLook] at hRead
    exact hRead
  | some doc =>
    rw [hLook] at hRead
    exact (hc doc s.1).trans hRead

def fieldVia (pack : σ → β) (unpack : β → σ) (f : StructField σ) : StructField β :=
  ⟨f.name, fun doc b => (f.store doc (unpack b)).map pack⟩

theorem lookupField_via (pack : σ → β) (unpack : β → σ) (fields : List (StructField σ))
    (key : List Char) : lookupField (fields.map (fieldVia pack unpack)) key =
      (lookupField fields key).map (fieldVia pack unpack) := by
  simp only [lookupField, find?_map]
  cases hExact : fields.find? ((fun f => decide (f.name = key)) ∘ fieldVia pack unpack) with
  | some f =>
    have hSame : fields.find? (fun f => decide (f.name = key)) = some f := hExact
    rw [hSame]
    rfl
  | none =>
    have hSame : fields.find? (fun f => decide (f.name = key)) = none := hExact
    rw [hSame]
    rfl

theorem unmarshalMembers_via {pack : σ → β} {unpack : β → σ} (hUnpack : ∀ a, unpack (pack a) = a)
    (fields : List (StructField σ)) (given : List (List Char × Doc)) (s : σ) :
    unmarshalMembers (fields.map (fieldVia pack unpack)) given (pack s) =
      (unmarshalMembers fields given s).map pack := by
  induction given generalizing s with
  | nil => rfl
  | cons m others ih =>
    obtain ⟨key, doc⟩ := m
    rw [unmarshalMembers, unmarshalMembers, lookupField_via]
    cases lookupField fields key with
    | none => rfl
    | some f =>
      simp only [map_some, bind_eq_bind, bind_some, fieldVia, hUnpack]
      cases f.store doc s with
      | none => rfl
      | some t => exact ih t

end Row

theorem lookup_eq_some_iff_of_nodup {members : List (List Char × Doc)}
    (hNodup : (members.map fst).Nodup) {name : List Char} {doc : Doc} :
    members.lookup name = some doc ↔ (name, doc) ∈ members := by
  induction members with
  | nil => simp
  | cons m others ih =>
    obtain ⟨key, value⟩ := m
    rw [map_cons, nodup_cons] at hNodup
    by_cases hKey : name = key
    · subst hKey
      have hAbsent : (name, doc) ∉ others := fun h => hNodup.1 (mem_map.mpr ⟨_, h, rfl⟩)
      simp [lookup_cons_self, hAbsent, eq_comm]
    · rw [lookup_cons, beq_eq_false_iff_ne.mpr hKey]
      simp [hKey, ih hNodup.2]

theorem lookup_sortedMembers {members : List (List Char × Doc)}
    (hNodup : (members.map fst).Nodup) (name : List Char) :
    ((sortMembers members).insertionSort keyLe).lookup name = (members.lookup name).map sort := by
  apply Option.ext
  intro doc
  rw [lookup_eq_some_iff_of_nodup (sortedMembers_keys_nodup hNodup), mem_sortedMembers,
    map_eq_some_iff]
  simp only [lookup_eq_some_iff_of_nodup hNodup]

theorem Row.Plain.sort {names : List (List Char)} {σ : Type} {row : Row names σ} (h : row.Plain)
    {given : List (List Char × Doc)} {s v : σ} (hExact : ∀ m ∈ given, m.1 ∈ names)
    (hNodup : (given.map fst).Nodup) (hRead : unmarshalMembers row.fields given s = some v) :
    unmarshalMembers row.fields ((sortMembers given).insertionSort keyLe) s = some v := by
  have hReads := (row.reads_iff hExact hNodup).mp hRead
  refine (row.reads_iff ?_ (sortedMembers_keys_nodup hNodup)).mpr ?_
  · rintro ⟨name, doc⟩ hm
    obtain ⟨original, hOrig, -⟩ := mem_sortedMembers.mp hm
    exact hExact (name, original) hOrig
  · exact row.congr (fun name _ => (lookup_sortedMembers hNodup name).symm) (h _ s v hReads)

def Codec.struct {names : List (List Char)} {σ : Type} (row : Row names σ) : Codec σ where
  zero := row.zero
  unmarshal := unmarshalStruct row.fields
  marshal := fun v => (row.members v).map .obj
  stable := by
    intro doc d v hDistinct hRead hWrite hValue
    obtain ⟨written, hWritten, rfl⟩ := Option.map_eq_some_iff.mp hWrite
    cases doc with
    | obj given =>
      rw [Doc.Distinct, every_obj] at hDistinct
      have hExact : ∀ m ∈ given, m.1 ∈ names := by
        intro m hm
        obtain ⟨doc, hDoc, -⟩ := member_of_value_eq hDistinct.1 hValue.symm hm
        exact row.within hWritten (m.1, doc) hDoc
      have hValues : ∀ name ∈ names,
          (written.lookup name).map Doc.value = (given.lookup name).map Doc.value := by
        intro name _
        have hSame : memberValues written = memberValues given := Value.obj.inj hValue
        rw [← memberValues_eq_lookup, ← memberValues_eq_lookup, hSame]
      have hReads := (row.reads_iff hExact hDistinct.1).mp hRead
      have hSorted := row.stable (fun name doc hDoc =>
        hDistinct.2 _ ((lookup_eq_some_iff_of_nodup hDistinct.1).mp hDoc)) hReads hWritten hValues
      refine (row.reads_iff ?_ (sortedMembers_keys_nodup hDistinct.1)).mpr ?_
      · rintro ⟨name, doc⟩ hm
        obtain ⟨original, hOriginal, -⟩ := mem_sortedMembers.mp hm
        exact hExact (name, original) hOriginal
      · exact row.congr (fun name _ => (lookup_sortedMembers hDistinct.1 name).symm) hSorted
    | null => cases hValue
    | _ => cases hRead

end Json
