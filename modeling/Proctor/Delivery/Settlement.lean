import Proctor.Delivery.Moves

/-!
# The settlement of a Browser source

Every Browser operation ends with a settlement of the sources it wrote to. What
the settlement of a Submission and its evidence rest on is written by settlements
alone, so between two operations each source is as its last settlement left it,
apart from columns that no review reads.
-/

namespace Proctor.Delivery

open Ranges Ledger Fallible List FamilyState DeliverySource DeliveryClosure

/-! ## Closures -/

variable {c c' : DeliveryClosure} {instant : Instant} {native : Bool}

theorem DeliveryClosure.expire_ok (hExpire : c.expire native instant = .ok c') :
    c'.closedAt = c.closedAt ∧ c'.boundary = c.boundary ∧ c'.uploadExpiresAt = c.uploadExpiresAt := by
  simp only [expire] at hExpire
  split_ifs at hExpire with hInvalid hOpen hFinal
  · cases hExpire
    exact ⟨rfl, rfl, rfl⟩
  · cases hExpire
    exact ⟨rfl, rfl, rfl⟩
  · cases hExpire
    have hNone : c.finalSequence = none := by simpa using hFinal
    refine ⟨rfl, ?_, rfl⟩
    cases hKnown : c.knownAtClose <;> simp [boundary, hNone, hKnown]

theorem DeliveryClosure.close_ok
    {reason : DeliveryCloseReason} {known : Int} {retirement : Option Instant}
    (hClose : c.close native reason known instant retirement = .ok c') : c'.closedAt.isSome ∧
      ((c.closedAt.isSome ∧ c' = c) ∨ (c.closedAt = none ∧ c'.boundary = known)) := by
  simp only [close] at hClose
  split_ifs at hClose with hInvalid hClosed hRetirement
  · cases hClose
    exact ⟨hClosed, Or.inl ⟨hClosed, rfl⟩⟩
  · cases hClose
    exact ⟨rfl, Or.inr ⟨by simpa using hClosed, rfl⟩⟩

theorem DeliveryClosure.declareFinal_ok
    {revision allocated : Int} {summaryOnly : Bool} {request : FinalDeliveryDeclaration}
    {result : DeliveryClosure × Int}
    (hDecl : c.declareFinal native revision allocated summaryOnly request instant = .ok result) :
    c.closedAt.isSome ∧ result.1.closedAt = c.closedAt ∧
      result.1.boundary = request.finalSequence ∧ allocated ≤ request.finalSequence ∧
      result.2 = request.finalSequence - allocated ∧
      (summaryOnly → request.finalSequence = allocated) := by
  simp only [declareFinal] at hDecl
  split_ifs at hDecl with hInvalid hOpen hExp hConflict hWin
  cases hDecl
  simp only [Bool.or_eq_true, decide_eq_true_eq, not_or, not_lt] at hConflict
  simp only [Bool.or_eq_true, decide_eq_true_eq, not_or, Bool.and_eq_true, not_and, not_lt,
    gt_iff_lt] at hWin
  refine ⟨by simpa [Option.isSome_iff_ne_none] using hOpen, rfl, rfl, hConflict.1.2, rfl,
    fun hSummary => ?_⟩
  have := hWin.2 hSummary
  omega

/-! ## Settlement -/

section Settlement

variable {α : Type}

structure StatusOf (now : Instant) (s : DeliverySource α)
    (state : DeliverySource α × BrowserSourceStatus) : Prop where
  stored : state.1 = s ∨ (s.closure.isExpired now = true ∧
    ∃ closure, s.closure.expire false now = .ok closure ∧
      state.1 = { s with closure := closure, terminal := s.allocated })
  progress : resolveDeliveryProgress s.allocated state.1.received state.1.gaps state.1.terminal =
    .ok state.2.progress
  allocated : state.2.allocated = s.allocated
  terminal : state.2.terminal = state.1.terminal
  closure : state.2.closure = state.1.closure
  summary : state.2.summary = s.summary
  serverTime : state.2.serverTime = now
  valid : state.2.validate = true

theorem browserDeliveryRanges_ok {s : DeliverySource α}
    {ranges : List SequenceRange × List SequenceRange}
    (hRanges : browserDeliveryRanges s = .ok ranges) : ranges = (s.received, s.gaps) := by
  simp only [browserDeliveryRanges, bind_ok_iff, pure_ok_iff] at hRanges
  obtain ⟨-, -, -, -, -, -, rfl⟩ := hRanges
  rfl

theorem browserSourceState_spec {now : Instant} {summaryOnly : Bool} {s : DeliverySource α}
    {state : DeliverySource α × BrowserSourceStatus}
    (hState : browserSourceState now summaryOnly s = .ok state)
    (hSeen : s.seen ≤ s.allocated) : StatusOf now s state := by
  have hMax : max s.allocated s.seen = s.allocated := max_eq_left hSeen
  simp only [browserSourceState, bind_ok_iff, hMax, expireBrowserSource] at hState
  obtain ⟨-, -, stored, hStored, ranges, hRanges, progress, hProg, _, hValid, hRes⟩ := hState
  obtain rfl := pure_ok hRes
  obtain rfl := browserDeliveryRanges_ok hRanges
  refine ⟨?_, persisted_ok_iff.mp hProg, rfl, rfl, rfl, rfl, rfl, require_ok_iff.mp hValid⟩
  split_ifs at hStored with hDue
  · obtain ⟨closure, hExpire, hStored⟩ := bind_ok hStored
    rw [Bool.and_eq_true] at hDue
    exact Or.inr ⟨hDue.2, closure, persisted_ok_iff.mp hExpire, (pure_ok hStored).symm⟩
  · exact Or.inl (Except.ok.inj hStored).symm

namespace StatusOf

variable {now : Instant} {s : DeliverySource α} {state : DeliverySource α × BrowserSourceStatus}

variable (h : StatusOf now s state)
include h

theorem lane :
    state.1.lane = s.lane ∨ state.1.lane = { s.lane with terminal := s.lane.allocated } := by
  obtain hSame | ⟨-, closure, hExpire, hSame⟩ := h.stored
  · exact Or.inl (by rw [hSame])
  obtain ⟨hClosed, hBdry, -⟩ := expire_ok hExpire
  refine Or.inr ?_
  rw [hSame]
  simp only [DeliverySource.lane, DeliverySource.boundary, DeliverySource.isClosed, hClosed,
    hBdry]
  rfl

theorem undue (hOpen : state.2.closure.isExpired now = false) :
    state.1 = s := by
  obtain hSame | ⟨hExpired, closure, hExpire, hSame⟩ := h.stored
  · exact hSame
  have hExp := (expire_ok hExpire).2.2
  rw [h.closure, hSame] at hOpen
  simp only [isExpired, hExp] at hOpen hExpired
  rw [hOpen] at hExpired
  cases hExpired

theorem fixed : state.1.allocated = s.allocated ∧
    state.1.seen = s.seen ∧ state.1.rows = s.rows ∧ state.1.participation = s.participation := by
  obtain hSame | ⟨-, closure, -, hSame⟩ := h.stored <;> rw [hSame] <;> exact ⟨rfl, rfl, rfl, rfl⟩

end StatusOf

def DeliverySource.settleAt (s : DeliverySource α) (rows : List (Row α)) (contiguous n : Int) :
    DeliverySource α :=
  { s with rows := rows, contiguous := contiguous, settled := n }

variable {s : DeliverySource α}

theorem settleAt_lane {rows : List (Row α)} {contiguous n : Int}
    (hRows : entriesOf rows = (entriesOf s.rows).map (Entry.interpretThrough n)) :
    (s.settleAt rows contiguous n).lane =
      { s.lane with settled := n, entries := s.lane.entries.map (Entry.interpretThrough n) } := by
  simp only [lane, settleAt, hRows]
  rfl

variable {reading : Reading α} {now : Instant} {intervals : Int} {f f' : FamilyState α} {j : Nat}

structure Settles (reading : Reading α) (now : Instant) (f : FamilyState α) (j : Nat)
    (f' : FamilyState α) (s : DeliverySource α) (state : DeliverySource α × BrowserSourceStatus)
    (rows : List (Row α)) (integrity : IntegrityLedger) (facts : Bool × Bool) : Prop where
  source : f.sources[j]? = some s
  status : StatusOf now s state
  advance : advanceRows reading state.2.progress.settledThrough (fun _ => false) [] s.rows = .ok rows
  retained : retainInterpreted reading j s.participation
    (interpretedRows state.2.progress.settledThrough s.rows rows) f.integrity = .ok integrity
  review : browserSourceSettlementFacts state.2 (unresolvedProvenance reading rows) = .ok facts
  result : f' = FamilyState.mark { f with
      pending := f.pending - releasedBy state.2.progress.settledThrough (entriesOf s.rows)
      integrity := integrity } j
    (state.1.settleAt rows state.2.progress.highestContiguous state.2.progress.settledThrough) facts

theorem advanceBrowserInterpretation_ok {through : Int}
    (hAdv : advanceBrowserInterpretation reading f j through = .ok f')
    (hSrc : f.sources[j]? = some s) (hBytes : ∀ e ∈ entriesOf s.rows, 0 ≤ e.bytes) :
    ∃ rows integrity, advanceRows reading through (fun _ => false) [] s.rows = .ok rows ∧
      retainInterpreted reading j s.participation (interpretedRows through s.rows rows)
        f.integrity = .ok integrity ∧
      f' = { f.putSource j { s with rows := rows } with
        pending := f.pending - releasedBy through (entriesOf s.rows)
        integrity := integrity } := by
  simp only [advanceBrowserInterpretation, bind_ok_iff, source, found_ok_iff] at hAdv
  obtain ⟨stored, hStored, -, -, rows, hRows, integrity, hRet, -, -, hRes⟩ := hAdv
  obtain rfl := Option.some.inj (hStored.symm.trans hSrc)
  refine ⟨rows, integrity, hRows, hRet, (pure_ok hRes).symm.trans ?_⟩
  have hReleased : 0 ≤ releasedBy through (entriesOf stored.rows) := releasedBy_nonneg hBytes
  have hPend : (if releasedBytes through stored.rows > 0 then
      f.pending - releasedBytes through stored.rows else f.pending) =
      f.pending - releasedBy through (entriesOf stored.rows) := by
    rw [releasedBytes]
    simp only [entriesOf] at hReleased ⊢
    split <;> omega
  rw [hPend]

theorem settleBrowserSource_ok (hSettle : settleBrowserSource reading now f j = .ok f')
    (hBytes : ∀ s, f.sources[j]? = some s → ∀ e ∈ entriesOf s.rows, 0 ≤ e.bytes)
    (hSeen : ∀ s, f.sources[j]? = some s → s.seen ≤ s.allocated) :
    ∃ s state rows integrity facts, Settles reading now f j f' s state rows integrity facts := by
  simp only [settleBrowserSource, bind_ok_iff, updateBrowserSourceSettlement, source,
    found_ok_iff] at hSettle
  obtain ⟨s, hSrc, counters, _, state, hState, advanced, hAdv, settled, hSet, marked, hMarked,
    facts, hFacts, -, -, hRes⟩ := hSettle
  have hStat := browserSourceState_spec hState (hSeen s hSrc)
  obtain ⟨-, -, hSame, hOwner⟩ := hStat.fixed
  have hBound := (List.getElem?_eq_some_iff.mp hSrc).1
  obtain ⟨rows, integrity, hRows, hRet, rfl⟩ := advanceBrowserInterpretation_ok hAdv
    (show (f.putSource j state.1).sources[j]? = some state.1 by simp [putSource, hBound])
    (by rw [hSame]; exact hBytes s hSrc)
  rw [hSame] at hRows hRet
  have hFinal : settled = { state.1 with rows := rows } := by
    simpa [putSource, hBound] using hSet.symm
  subst hFinal
  have hMark : marked = state.1.settleAt rows state.2.progress.highestContiguous
      state.2.progress.settledThrough := by
    simpa [putSource, hBound, settleAt] using hMarked.symm
  subst hMark
  rw [hOwner] at hRet
  refine ⟨s, state, rows, integrity, facts, hSrc, hStat, hRows, hRet,
    persisted_ok_iff.mp hFacts, (pure_ok hRes).symm.trans ?_⟩
  simp [mark, putSource, hSame]

theorem putSource_putSource (f : FamilyState α) (j : Nat) (s s' : DeliverySource α) :
    (f.putSource j s).putSource j s' = f.putSource j s' := by
  simp [putSource]

theorem getElem?_putSource (hSrc : f.sources[j]? = some s)
    (s' : DeliverySource α) : (f.putSource j s').sources[j]? = some s' := by
  have hBound := (List.getElem?_eq_some_iff.mp hSrc).1
  simp [putSource, hBound]

theorem getElem?_putSource_ne {i : Nat} (hIndex : i ≠ j) (s : DeliverySource α) :
    (f.putSource j s).sources[i]? = f.sources[i]? := by
  simp [putSource, hIndex.symm]

end Settlement

/-! ## Reviews -/

section Reviews

variable {α : Type}

structure SourceView (α : Type) where
  participation : Nat
  closure : DeliveryClosure
  summary : Option UnretainedDeliverySummary
  settlementPending : Bool
  settlementIncomplete : Bool
  rows : List (Row α)

def DeliverySource.view (s : DeliverySource α) : SourceView α :=
  ⟨s.participation, s.closure, s.summary, s.settlementPending, s.settlementIncomplete, s.rows⟩

def FamilyState.views (f : FamilyState α) : List (SourceView α) :=
  f.sources.map DeliverySource.view

structure Kept (f f' : FamilyState α) : Prop where
  views : f'.views = f.views
  settlement : f'.settlement = f.settlement
  integrity : f'.integrity = f.integrity
  retired : f'.retired = f.retired

/-- A stored event counts as one record, and is interpreted later. -/
def Row.Arrives (row : Row α) : Prop :=
  row.interpreted = false ∧ row.records = 1

structure Edited (j : Nat) (f g : FamilyState α) : Prop where
  others : ∀ i, i ≠ j → g.views[i]? = f.views[i]?
  source : ∀ v, g.views[j]? = some v →
    (∃ u fresh, f.views[j]? = some u ∧ v.participation = u.participation ∧
      v.rows.Perm (u.rows ++ fresh) ∧ ∀ row ∈ fresh, row.Arrives) ∨
    (f.views[j]? = none ∧ v.rows = [])
  integrity : g.integrity = f.integrity
  retired : g.retired = f.retired

inductive Review (reading : Reading α) : FamilyState α → FamilyState α → Prop
  | keep {f f' : FamilyState α} (hKept : Kept f f') : Review reading f f'
  | settle {f g f' : FamilyState α} {now : Instant} {j : Nat} {s : DeliverySource α}
      {state : DeliverySource α × BrowserSourceStatus} {rows : List (Row α)}
      {integrity : IntegrityLedger} {facts : Bool × Bool} (hEdited : Edited j f g)
      (hSettles : Settles reading now g j f' s state rows integrity facts)
      (hSound : state.1.lane.Sound) : Review reading f f'

abbrev Reviews (reading : Reading α) : FamilyState α → FamilyState α → Prop :=
  Relation.ReflTransGen (Review reading)

variable {reading : Reading α} {f f' g : FamilyState α} {j : Nat} {s s' : DeliverySource α}

theorem Kept.reviews (hKept : Kept f f') : Reviews reading f f' :=
  .single (.keep hKept)

theorem kept_of_sources (hSources : f'.sources = f.sources) (hSettlement : f'.settlement = f.settlement)
    (hIntegrity : f'.integrity = f.integrity) (hRetired : f'.retired = f.retired) : Kept f f' :=
  ⟨congrArg (List.map view) hSources, hSettlement, hIntegrity, hRetired⟩

theorem kept_putSource (hSrc : f.sources[j]? = some s) (hView : s'.view = s.view) :
    Kept f (f.putSource j s') := by
  refine ⟨?_, rfl, rfl, rfl⟩
  have hBound := (List.getElem?_eq_some_iff.mp hSrc).1
  refine List.ext_getElem? fun i => ?_
  simp only [views, putSource, List.map_set, hView, List.getElem?_set,
    List.getElem?_map]
  split
  next hIndex =>
    subst hIndex
    simp [hBound, (List.getElem?_eq_some_iff.mp hSrc).2]
  · rfl

theorem kept_terminate (f : FamilyState α) (chosen : DeliverySource α → Bool) :
    Kept f (f.terminate chosen) := by
  refine ⟨?_, rfl, rfl, rfl⟩
  simp only [views, terminate, map_map]
  refine map_congr_left fun s _ => ?_
  simp only [Function.comp_apply]
  split <;> rfl

theorem Edited.refl (j : Nat) (f : FamilyState α) : Edited j f f :=
  ⟨fun _ _ => rfl, fun v hv => .inl ⟨v, [], hv, rfl, by simp, nofun⟩, rfl, rfl⟩

theorem edited_putSource {fresh : List (Row α)} (hSrc : f.sources[j]? = some s)
    (hOwner : s'.participation = s.participation) (hRows : s'.rows.Perm (s.rows ++ fresh))
    (hFresh : ∀ row ∈ fresh, row.Arrives) : Edited j f (f.putSource j s') := by
  refine ⟨fun i hi => ?_, fun v hv => .inl ⟨s.view, fresh, ?_, ?_⟩, rfl, rfl⟩
  · simp only [views, getElem?_map, getElem?_putSource_ne hi]
  · simp [views, hSrc]
  simp only [views, getElem?_map, getElem?_putSource hSrc, Option.map_some,
    Option.some.injEq] at hv
  subst hv
  exact ⟨hOwner, hRows, hFresh⟩

theorem edited_same (hSrc : f.sources[j]? = some s)
    (hOwner : s'.participation = s.participation) (hRows : s'.rows = s.rows) :
    Edited j f (f.putSource j s') := by
  have hPerm : s'.rows.Perm (s.rows ++ []) := by rw [hRows, append_nil]
  exact edited_putSource hSrc hOwner hPerm nofun

theorem edited_start (f : FamilyState α) (p : Nat) (startedAt : Instant) :
    Edited f.sources.length f { f with sources := f.sources ++ [.start p startedAt] } := by
  refine ⟨fun i hi => ?_, fun v hv => .inr ⟨by simp [views], ?_⟩, rfl, rfl⟩
  · simp only [views, map_append, map_singleton]
    by_cases hBefore : i < f.sources.length
    · rw [getElem?_append_left (by simpa using hBefore)]
    · rw [getElem?_eq_none (by simp; omega), getElem?_eq_none (by simp; omega)]
  · simp only [views, map_append, map_singleton] at hv
    rw [getElem?_append_right (by simp)] at hv
    simp only [length_map, Nat.sub_self, getElem?_cons_zero, Option.some.injEq] at hv
    rw [← hv]
    rfl

theorem Edited.trans_kept {h : FamilyState α} (hEdited : Edited j f g) (hKept : Kept g h) :
    Edited j f h :=
  ⟨fun i hi => by rw [hKept.views]; exact hEdited.others i hi,
    fun v hv => hEdited.source v (by rwa [hKept.views] at hv),
    hKept.integrity.trans hEdited.integrity, hKept.retired.trans hEdited.retired⟩

def settledView (state : DeliverySource α × BrowserSourceStatus) (rows : List (Row α))
    (facts : Bool × Bool) : SourceView α :=
  ⟨state.1.participation, state.1.closure, state.1.summary, facts.1, facts.2, rows⟩

theorem Settles.views {now : Instant} {state : DeliverySource α × BrowserSourceStatus}
    {rows : List (Row α)} {integrity : IntegrityLedger} {facts : Bool × Bool}
    (h : Settles reading now g j f' s state rows integrity facts) :
    f'.views = g.views.set j (settledView state rows facts) := by
  rw [h.result]
  simp only [FamilyState.mark, FamilyState.views, FamilyState.putSource, map_set]
  rfl

theorem edited_charge (hSrc : f.sources[j]? = some s)
    (hOwner : s'.participation = s.participation) (hRows : s'.rows = s.rows)
    (p : Nat) (records bytes positions : Int) :
    Edited j f ((f.charge p records bytes positions).putSource j s') := by
  have hPut := edited_same hSrc hOwner hRows
  exact hPut.trans_kept (kept_of_sources rfl rfl rfl rfl)

end Reviews

end Proctor.Delivery
