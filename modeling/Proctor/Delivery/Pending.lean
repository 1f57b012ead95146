import Proctor.Delivery.Retirement

/-!
# Pending bytes

The pending counter of a family is the sum of the bytes its stored rows wait to be
interpreted with. Between operations it leaves the repair reservation free, so an
append that continues the settled prefix is never refused for pending capacity.
-/

namespace Proctor.Delivery

open Ranges Ledger Fallible ExamPolicy List FamilyState
open Option (some)

/-! ## The counter -/

section Counter

variable {α : Type} {native : Bool} {intervals : Int} {f : FamilyState α} {s : DeliverySource α}

def DeliverySource.pendingBytes (s : DeliverySource α) : Int :=
  ((s.rows.filter fun row => !row.interpreted).map fun row => row.bytes).sum

def FamilyState.pendingBytes (f : FamilyState α) : Int :=
  (f.sources.map DeliverySource.pendingBytes).sum

theorem pendingOf_lane (s : DeliverySource α) : pendingOf s.lane.entries = s.pendingBytes := by
  have hRows : ∀ rows : List (Row α), pendingOf (entriesOf rows) =
      ((rows.filter fun row => !row.interpreted).map fun row => row.bytes).sum := by
    intro rows
    induction rows with
    | nil => rfl
    | cons row rest ih =>
      simp only [pendingOf, entriesOf, map_cons, sum_cons] at ih ⊢
      rw [ih, filter_cons]
      cases row.interpreted <;> simp
  exact hRows s.rows

section

variable (hGood : f.Good native intervals)
include hGood

theorem pending_eq_pendingBytes : f.pending = f.pendingBytes := by
  have hPend : f.pending = pendingTotal (f.sources.map DeliverySource.lane) :=
    hGood.sound.pending_eq
  rw [hPend, pendingTotal, map_map]
  exact congrArg List.sum (map_congr_left fun s _ => pendingOf_lane s)

theorem bytes_nonneg (hs : s ∈ f.sources) : ∀ e ∈ s.lane.entries, 0 ≤ e.bytes :=
  (hGood.sound.lane s.lane (mem_map_of_mem hs)).bytes_nonneg

theorem pendingBytes_nonneg (hs : s ∈ f.sources) : 0 ≤ s.pendingBytes := by
  have hBytes := bytes_nonneg hGood hs
  have hNonneg : 0 ≤ releasedBy 0 s.lane.entries := releasedBy_nonneg hBytes
  have hLe := releasedBy_le_pendingOf (n := 0) hBytes
  rw [pendingOf_lane] at hLe
  exact hNonneg.trans hLe

theorem pending_nonneg : 0 ≤ f.pending := by
  rw [pending_eq_pendingBytes hGood]
  refine sum_nonneg fun n hn => ?_
  obtain ⟨s, hs, rfl⟩ := mem_map.mp hn
  exact pendingBytes_nonneg hGood hs

theorem pendingBytes_le_pending (hs : s ∈ f.sources) : s.pendingBytes ≤ f.pending := by
  rw [pending_eq_pendingBytes hGood]
  refine single_le_sum (fun n hn => ?_) _ (mem_map_of_mem hs)
  obtain ⟨t, ht, rfl⟩ := mem_map.mp hn
  exact pendingBytes_nonneg hGood ht

theorem releasedBytes_le (hs : s ∈ f.sources)
    (fresh : List (Row α)) (hFresh : ∀ row ∈ fresh, 0 ≤ row.bytes) (through : Int) :
    0 ≤ releasedBytes through (fresh.foldl (fun rows row => insertRow row rows) s.rows) ∧
      releasedBytes through (fresh.foldl (fun rows row => insertRow row rows) s.rows) ≤
        f.pending + bytesOf (entriesOf fresh) := by
  have hOld := bytes_nonneg hGood hs
  have hNew : ∀ e ∈ entriesOf fresh, 0 ≤ e.bytes := by
    intro e he
    obtain ⟨row, hRow, rfl⟩ := mem_map.mp he
    exact hFresh row hRow
  have hPerm := (foldl_insertRow_perm fresh s.rows).map Row.toEntry
  have hSplit : releasedBytes through (fresh.foldl (fun rows row => insertRow row rows) s.rows) =
      releasedBy through (entriesOf fresh) + releasedBy through s.lane.entries := by
    rw [releasedBytes, releasedBy_perm hPerm]
    simp [releasedBy, entriesOf, DeliverySource.lane]
  have hPend := pendingBytes_le_pending hGood hs
  have hReleased := releasedBy_le_pendingOf (n := through) hOld
  have hArrived : releasedBy through (entriesOf fresh) ≤ bytesOf (entriesOf fresh) := by
    refine sum_le_sum fun e he => ?_
    have := hNew e he
    split <;> omega
  have hLow := releasedBy_nonneg (n := through) hOld
  have hLow' := releasedBy_nonneg (n := through) hNew
  rw [pendingOf_lane] at hReleased
  omega

end

end Counter

/-- The counters are the sums over the stored rows. What an interpretation takes from
them, at any settled position and with the records of an append just stored, is there. -/
structure Attempt.PendingExact {α β : Type} (a : Attempt α β) : Prop where
  browser : a.browser.pending = (a.browser.sources.map DeliverySource.pendingBytes).sum
  native : a.native.pending = (a.native.sources.map DeliverySource.pendingBytes).sum
  browser_release : ∀ s ∈ a.browser.sources, ∀ (events : List (BrowserEvent α)) (through : Int),
    let released := releasedBytes through
      (events.foldl (fun rows e => insertRow e.row rows) s.rows)
    0 ≤ released ∧ released ≤ a.browser.pending + eventBytes events
  native_release : ∀ s ∈ a.native.sources, ∀ (input : NativeAppend β) (through : Int),
    (0 ≤ releasedBytes through s.rows ∧ releasedBytes through s.rows ≤ a.native.pending) ∧
      let released := releasedBytes through (insertRow input.row s.rows)
      0 ≤ released ∧ released ≤ a.native.pending + input.bytes

theorem afterAll_pendingExact {α β : Type} (browserReading : Reading α) (nativeReading : Reading β)
    (start : Instant) (ops : List (AttemptOp α β)) :
    (Attempt.afterAll browserReading nativeReading start ops).PendingExact := by
  have hGood := Attempt.afterAll_good browserReading nativeReading start ops
  refine
    { browser := pending_eq_pendingBytes hGood.browser
      native := pending_eq_pendingBytes hGood.native
      browser_release := fun s hs events through => ?_
      native_release := fun s hs input through => ⟨?_, ?_⟩ }
  · have hFresh : ∀ row ∈ events.map BrowserEvent.row, 0 ≤ row.bytes := by
      intro row hRow
      obtain ⟨e, -, rfl⟩ := mem_map.mp hRow
      exact Int.natCast_nonneg e.bytes
    have hReleased := releasedBytes_le hGood.browser hs _ hFresh through
    rwa [bytesOf_events, foldl_map] at hReleased
  · have hReleased := releasedBytes_le hGood.native hs [] nofun through
    simpa [bytesOf] using hReleased
  · have hReleased := releasedBytes_le hGood.native hs [input.row]
      (by simp [NativeAppend.row]) through
    simpa [bytesOf, entriesOf, NativeAppend.row] using hReleased

/-! ## The refusal -/

abbrev Spares {γ : Type} (value : Except Fault γ) : Prop :=
  Avoids (.conflict .pendingCapacity) value

structure Reading.Spares {α : Type} (reading : Reading α) : Prop where
  admission : ∀ rows row, Delivery.Spares (reading.admission rows row)
  accept : ∀ rows contiguous row, Delivery.Spares (reading.accept rows contiguous row)
  interpret : ∀ rows missing row, Delivery.Spares (reading.interpret rows missing row)

@[simp] theorem spares_require {condition : Bool} {fault : Fault}
    (hFault : fault ≠ .conflict .pendingCapacity) : Spares (require condition fault) := by
  simp [require, hFault]

@[simp] theorem spares_found {γ : Type} (value : Option γ) : Spares (found value) := by
  cases value <;> simp [found]

@[simp] theorem spares_persisted {γ : Type} (value : Except Fault γ) : Spares (persisted value) := by
  cases value <;> simp [persisted]

@[simp] theorem spares_close (c : DeliveryClosure) (native : Bool) (reason : DeliveryCloseReason)
    (known : Int) (instant : Instant) (retirement : Option Instant) :
    Spares (c.close native reason known instant retirement) := by
  simp [DeliveryClosure.close]

@[simp] theorem spares_expire (c : DeliveryClosure) (native : Bool) (instant : Instant) :
    Spares (c.expire native instant) := by
  simp [DeliveryClosure.expire]

@[simp] theorem spares_charge (q : DeliveryQuotaUsage) (records bytes positions : Int) :
    Spares (q.charge records bytes positions) := by
  cases hExceeded : q.exceeded records bytes positions <;> simp [DeliveryQuotaUsage.charge, hExceeded]

section Settle

variable {α : Type} {reading : Reading α} (hRead : reading.Spares)

include hRead

theorem spares_advanceRows (through : Int) (missingBefore : Int → Bool)
    (before rows : List (Row α)) : Spares (advanceRows reading through missingBefore before rows) := by
  induction rows generalizing before with
  | nil => exact avoids_ok before
  | cons row rest ih => simp [advanceRows, hRead.interpret, ih]

omit hRead in
theorem spares_retainBrowserIntegrity (l : IntegrityLedger) (event : QualifyingEvent) :
    Spares (l.retainBrowserIntegrity event) := by
  cases hGroup : l.group event.key <;> cases hEnc : event.encoded <;>
    simp [IntegrityLedger.retainBrowserIntegrity, IntegrityLedger.retainInGroup, hGroup, hEnc]

theorem spares_advanceBrowserInterpretation (f : FamilyState α) (j : Nat) (through : Int) :
    Spares (advanceBrowserInterpretation reading f j through) := by
  simp [advanceBrowserInterpretation, retainInterpreted, source,
    spares_advanceRows hRead, avoids_foldlM spares_retainBrowserIntegrity]

omit hRead in
@[simp] theorem spares_browserSourceState (now : Instant) (summaryOnly : Bool) (s : DeliverySource α) :
    Spares (browserSourceState now summaryOnly s) := by
  simp [browserSourceState, expireBrowserSource, browserDeliveryRanges]

theorem spares_settleBrowserSource (now : Instant) (f : FamilyState α) (j : Nat) :
    Spares (settleBrowserSource reading now f j) := by
  simp [settleBrowserSource, updateBrowserSourceSettlement, source, counters,
    spares_advanceBrowserInterpretation hRead]

theorem spares_closeBrowserSource (now : Instant) (parts : List Participation) (f : FamilyState α)
    (j : Nat) (reason : DeliveryCloseReason) (instant : Instant) :
    Spares (closeBrowserSource reading now parts f j reason instant) := by
  simp [closeBrowserSource, source, spares_settleBrowserSource hRead]

theorem spares_lockBrowserDelivery (now : Instant) (parts : List Participation)
    (f : FamilyState α) (j : Nat) (guarded : Bool) :
    Spares (lockBrowserDelivery reading now parts f j guarded) := by
  simp [lockBrowserDelivery, source, spares_closeBrowserSource hRead]

theorem spares_settleExhaustedBrowserSources (now : Instant) (f : FamilyState α)
    (part : Option Nat) : Spares (settleExhaustedBrowserSources reading now f part) := by
  simp [settleExhaustedBrowserSources, settleBrowserSources,
    avoids_foldlM (spares_settleBrowserSource hRead now)]

theorem spares_admitBrowserAppendEvents (s : DeliverySource α) (status : BrowserSourceStatus)
    (summaryOnly : Bool) (gaps : List SequenceRange) (events : List (BrowserEvent α)) :
    Spares (admitBrowserAppendEvents reading s status summaryOnly gaps events) := by
  have hEvent : ∀ e, Spares (admitBrowserAppendEvent reading s status summaryOnly gaps e) := by
    intro e
    simp only [admitBrowserAppendEvent]
    split <;> simp [checkBrowserAppendPosition, hRead.admission]
  induction events with
  | nil => exact avoids_ok []
  | cons e rest ih => simp [admitBrowserAppendEvents, hEvent, ih]

theorem spares_refuseBrowserAppendOverBudget (now : Instant) (f : FamilyState α) (p : Nat)
    (nextPart nextAttempt : DeliveryQuotaUsage) :
    Spares (refuseBrowserAppendOverBudget reading now f p nextPart nextAttempt) := by
  have hLatch : ∀ reason whole, Spares (latchBrowserDelivery reading now f p reason whole) := by
    intro reason whole
    cases whole with
    | true | false => exact spares_settleExhaustedBrowserSources hRead _ _ _
  simp only [refuseBrowserAppendOverBudget]
  split <;> simp [hLatch]

end Settle

/-! ## Repair of the head -/

theorem canRetain_of_charge {q next : DeliveryQuotaUsage} {records bytes positions pending : Int}
    (recoverableGap : Bool) (hCharge : q.charge records bytes positions = .ok next)
    (hColl : next.summaryOnly = false) (hPend : 0 ≤ pending)
    (hFree : pending ≤ deliveryPendingByteLimit - deliveryRepairReservationBytes)
    (hReq : bytes ≤ deliveryRepairReservationBytes) :
    canRetainPendingDelivery pending q.retainedBytes q.byteLimit bytes true recoverableGap := by
  have hValid : q.validate := by
    simp only [DeliveryQuotaUsage.charge] at hCharge
    split at hCharge
    · cases hCharge
    next hInvalid =>
      simp only [Bool.or_eq_true, not_or, Bool.not_eq_true', Bool.not_eq_false] at hInvalid
      exact hInvalid.1.1.1
  simp only [DeliveryQuotaUsage.validate, Bool.and_eq_true, securitySafeInt_iff] at hValid
  obtain ⟨-, -, hBytes, -, -, hFits, -, -⟩ := DeliveryQuotaUsage.charge_fits hCharge hColl
  exact canRetainPendingDelivery_repair hPend hFree hBytes hReq (by omega) hFits (by omega)

section Head

variable {α : Type} {reading : Reading α} {now : Instant} {intervals : Int} {f f' : FamilyState α}
  {s s' : DeliverySource α} {j : Nat}

theorem covered_settleAt (contiguous : Int) {rows : List (Row α)} {n : Int}
    (hRows : entriesOf rows = (entriesOf s.rows).map (Entry.interpretThrough n)) :
    (s.settleAt rows contiguous n).lane.Covered = s.lane.Covered := by
  funext k
  rw [settleAt_lane hRows]
  exact propext (or_congr_left received_interpretThrough)

variable {parts : List Participation} {input : BrowserAppend α}

theorem lockBrowserDelivery_covered {guarded : Bool} (hGood : f.Good false intervals)
    (hLock : lockBrowserDelivery reading now parts f j guarded = .ok f')
    (hSrc : f.sources[j]? = some s) (hSrc' : f'.sources[j]? = some s')
    (hOpen : s'.closure.isExpired now = false) : s'.lane.Covered = s.lane.Covered := by
  have hSame : f' = f → s'.lane.Covered = s.lane.Covered := by
    rintro rfl
    rw [some.inj (hSrc'.symm.trans hSrc)]
  simp only [lockBrowserDelivery, bind_ok_iff] at hLock
  obtain ⟨-, -, stored, -, p, -, -, -, hLock⟩ := hLock
  split_ifs at hLock
  · exact hSame (Except.ok.inj hLock).symm
  · simp only [closeBrowserSource, bind_ok_iff, source, found_ok_iff] at hLock
    obtain ⟨t, hClosing, p, -, -, -, closure, -, hSettle⟩ := hLock
    obtain rfl := some.inj (hClosing.symm.trans hSrc)
    have hClosed := getElem?_putSource hSrc { t with
      closure := closure, endedAt := closure.closedAt, allocated := max t.allocated t.seen }
    obtain ⟨u, state, rows, integrity, facts, hSet⟩ := settleBrowserSource_ok hSettle
      (fun u hu => by
        cases hClosed.symm.trans hu
        exact (hGood.lane hSrc).bytes_nonneg)
      (fun u hu => by
        cases hClosed.symm.trans hu
        exact le_max_right _ _)
    cases hClosed.symm.trans hSet.source
    have hMark : s' = { state.1.settleAt rows state.2.progress.highestContiguous
        state.2.progress.settledThrough with
          settlementPending := facts.1, settlementIncomplete := facts.2 } := by
      rw [hSet.result] at hSrc'
      exact some.inj (hSrc'.symm.trans (getElem?_putSource hClosed _))
    have hUndue := hSet.status.undue (by rw [hSet.status.closure]; rwa [hMark] at hOpen)
    rw [hMark, hUndue]
    exact covered_settleAt state.2.progress.highestContiguous hSet.entries
  · obtain ⟨-, -, hLock⟩ := bind_ok hLock
    exact hSame (pure_ok hLock).symm

theorem spares_retainBrowserAppendRecords {status : BrowserSourceStatus}
    {fresh : List (BrowserEvent α)} (hRead : reading.Spares) (hGood : f.Good false intervals)
    (hRepair : input.repairs status.progress.windowBase) (hReq : eventBytes fresh ≤ 320 * 1024) :
    Spares (retainBrowserAppendRecords reading now f input s status fresh) := by
  refine (spares_found _).bind fun counters _ => (spares_require (by nofun)).bind fun _ _ =>
    (spares_charge _ _ _ _).bind fun nextPart hPart =>
      (spares_charge _ _ _ _).bind fun nextAttempt hAtt => ?_
  split_ifs with hStop
  · exact spares_refuseBrowserAppendOverBudget hRead _ _ _ _ _
  simp only [Bool.or_eq_true, not_or, Bool.not_eq_true] at hStop
  have hFree := hGood.sound.pending_reserve
  have hCheck : checkBrowserPendingCapacity f input status.progress.windowBase (eventBytes fresh)
      (counters.usage false false) (f.attempt.usage false true) = .ok () := by
    simp only [checkBrowserPendingCapacity, require_ok_iff, hRepair, Bool.and_eq_true]
    exact ⟨canRetain_of_charge _ hPart hStop.1 (pending_nonneg hGood) hFree hReq,
      canRetain_of_charge _ hAtt hStop.2 (pending_nonneg hGood) hFree hReq⟩
  refine Avoids.bind (hCheck ▸ avoids_ok ()) fun _ _ => ?_
  exact (spares_settleBrowserSource hRead _ _ _).bind fun _ _ => avoids_pure _

def BrowserAppend.RepairsHead (f : FamilyState α) (input : BrowserAppend α) : Prop :=
  ∀ (s : DeliverySource α) (base : Int), f.sources[input.source]? = some s →
    IsFrontier s.lane.Covered base → input.repairs base = true

theorem spares_performBrowserAppend
    (hRead : reading.Spares) (hGood : f.Good false intervals) (hHead : input.RepairsHead f) :
    Spares (performBrowserAppend reading now parts f input) := by
  refine (spares_require (by nofun)).bind fun _ _ =>
    (spares_lockBrowserDelivery hRead _ _ _ _ _).bind fun locked hLock =>
      (spares_found _).bind fun s' hSrc' => (spares_found _).bind fun counters _ =>
        (spares_browserSourceState _ _ _).bind fun state hState =>
          (spares_require (by nofun)).bind fun _ _ => (spares_require (by nofun)).bind fun _ hCur =>
            (spares_admitBrowserAppendEvents hRead _ _ _ _ _).bind fun fresh _ =>
              (spares_require (by nofun)).bind fun _ hReq => ?_
  replace hSrc' := found_ok_iff.mp hSrc'
  have hQuiet := lockBrowserDelivery_quiet hGood hLock
  have hGood' := hQuiet.good hGood
  have hStat := browserSourceState_spec hState (hGood'.seen hSrc')
  have hOpen : state.2.closure.isExpired now = false := by simpa using require_ok_iff.mp hCur
  have hUndue := hStat.undue hOpen
  rw [hStat.closure, hUndue] at hOpen
  have hProg := hStat.progress
  rw [hUndue] at hProg
  have hBase := frontier_of_resolve (hGood'.lane hSrc') hProg
  rw [← ((resolveDeliveryProgress_spec hProg).2).windowBase] at hBase
  split_ifs
  · exact (spares_settleBrowserSource hRead _ _ _).bind fun _ _ => avoids_pure _
  obtain ⟨s, hSrc⟩ : ∃ s, f.sources[input.source]? = some s := by
    simp only [lockBrowserDelivery, bind_ok_iff, source, found_ok_iff] at hLock
    obtain ⟨-, -, s, hSrc, -⟩ := hLock
    exact ⟨s, hSrc⟩
  rw [lockBrowserDelivery_covered hGood hLock hSrc hSrc' hOpen] at hBase
  simp only [require_ok_iff, Bool.and_eq_true, decide_eq_true_eq] at hReq
  exact spares_retainBrowserAppendRecords hRead hGood' (hHead s _ hSrc hBase) hReq.2

end Head

section NativeHead

variable {α β : Type} {rb : Reading α} {rn : Reading β}
  {a a' : Attempt α β} {s s' : DeliverySource β} {input : NativeAppend β} {p : Nat}

theorem spares_lockNativeDelivery (hBrowser : rb.Spares) (a : Attempt α β) (p : Nat)
    (guarded : Bool) : Spares (lockNativeDelivery rb a p guarded) := by
  have hSources : ∀ reason instant, Spares (closeParticipationBrowserSources rb a.now
      a.participations a.browser p reason instant) := fun reason instant =>
    avoids_foldlM (fun _ _ => spares_closeBrowserSource hBrowser _ _ _ _ _ _) _ _
  simp [lockNativeDelivery, closeEndedNativeDelivery, closeNativeDelivery, expireNativeDelivery,
    source, Attempt.participation, hSources]

theorem spares_advanceNativeInterpretation (hNative : rn.Spares) (f : FamilyState β)
    (p : Nat) : Spares (advanceNativeInterpretation rn f p) := by
  simp [advanceNativeInterpretation, source, spares_advanceRows hNative]

theorem lockNativeDelivery_covered {guarded : Bool} (hLock : lockNativeDelivery rb a p guarded = .ok a')
    (hSrc : a.native.sources[p]? = some s) (hSrc' : a'.native.sources[p]? = some s')
    (hOpen : s'.closure.isExpired a'.now = false) : s'.lane.Covered = s.lane.Covered := by
  simp only [lockNativeDelivery, bind_ok_iff, source, found_ok_iff] at hLock
  obtain ⟨-, -, stored, hStored, -, -, closed, hClosed, hExpire⟩ := hLock
  obtain rfl := some.inj (hStored.symm.trans hSrc)
  obtain ⟨closure, hClosing⟩ : ∃ closure, closed.native.sources[p]? =
      some { stored with closure := closure } := by
    simp only [closeEndedNativeDelivery, bind_ok_iff] at hClosed
    obtain ⟨part, -, hClosed⟩ := hClosed
    split_ifs at hClosed
    · obtain rfl := pure_ok hClosed
      exact ⟨stored.closure, hSrc⟩
    · simp only [closeNativeDelivery, bind_ok_iff, pure_ok_iff, source,
        found_ok_iff] at hClosed
      obtain ⟨t, ht, part, -, -, -, closure, -, browser, -, rfl⟩ := hClosed
      obtain rfl := some.inj (ht.symm.trans hSrc)
      exact ⟨closure, getElem?_putSource hSrc _⟩
    · obtain ⟨-, -, rfl⟩ := bind_pure_ok hClosed
      exact ⟨stored.closure, hSrc⟩
  simp only [expireNativeDelivery, bind_ok_iff, source, found_ok_iff] at hExpire
  obtain ⟨t, ht, hExpire⟩ := hExpire
  split_ifs at hExpire with hDue
  · obtain ⟨expired, hExpired, rfl⟩ := bind_pure_ok hExpire
    obtain rfl := some.inj (hSrc'.symm.trans (getElem?_putSource hClosing _))
    have hExp := (DeliveryClosure.expire_ok hExpired).2.2
    simp only [Bool.and_eq_true] at hDue
    simp only [DeliveryClosure.isExpired, hExp] at hOpen hDue
    rw [hOpen] at hDue
    cases hDue.2
  · obtain rfl := pure_ok hExpire
    cases hSrc'.symm.trans hClosing
    rfl

theorem spares_retainNativeAppendBatch {base metadata : Int} (hNative : rn.Spares)
    (hGood : a.Good) (hHead : input.sequence = base + 1) :
    Spares (retainNativeAppendBatch rn a input s base metadata) := by
  refine (spares_require (by nofun)).bind fun _ hReq => (spares_found _).bind fun counters _ =>
    (spares_charge _ _ _ _).bind fun nextPart hPart =>
      (spares_charge _ _ _ _).bind fun nextAttempt hAtt => ?_
  simp only [require_ok_iff, Bool.and_eq_true, decide_eq_true_eq] at hReq
  split_ifs with hStop
  · have hRefuse : Spares (refuseNativeAppendOverBudget a.native input.stream nextPart
        nextAttempt) := by
      simp only [refuseNativeAppendOverBudget]
      split <;> simp
    exact hRefuse.bind fun _ _ => avoids_pure _
  · simp only [Bool.or_eq_true, not_or, Bool.not_eq_true] at hStop
    have hFree := hGood.native.sound.pending_reserve
    have hBytes : (input.bytes : Int) ≤ deliveryRepairReservationBytes := by
      simp only [deliveryRepairReservationBytes]
      omega
    have hPend := pending_nonneg hGood.native
    have hPartFits := canRetain_of_charge false hPart hStop.1 hPend hFree
      hBytes
    have hAttemptFits := canRetain_of_charge false hAtt hStop.2 hPend
      hFree hBytes
    refine Avoids.bind ?_ fun _ _ => (hNative.accept _ _ _).bind fun _ _ =>
      (spares_advanceNativeInterpretation hNative _ _).bind fun _ _ => avoids_pure _
    simp only [hHead, decide_true, Bool.not_true]
    have hFits := (Bool.and_eq_true _ _).mpr ⟨hPartFits, hAttemptFits⟩
    exact require_ok_iff.mpr hFits ▸ avoids_ok ()

def NativeAppend.RepairsHead (f : FamilyState β) (input : NativeAppend β) : Prop :=
  ∀ (s : DeliverySource β) (base : Int), f.sources[input.stream]? = some s →
    IsFrontier s.lane.Covered base → input.sequence = base + 1

theorem spares_executeNativeAppend (hBrowser : rb.Spares)
    (hNative : rn.Spares) (hGood : a.Good) (hHead : input.RepairsHead a.native) :
    Spares (executeNativeAppend rb rn a input) := by
  refine (spares_lockNativeDelivery hBrowser _ _ _).bind fun locked hLock =>
    (spares_found _).bind fun s' hSrc' => (spares_require (by nofun)).bind fun _ hCur =>
      (spares_require (by nofun)).bind fun _ _ => Avoids.bind ?_ fun answer _ =>
        (spares_lockNativeDelivery hBrowser _ _ _).bind fun _ _ => (spares_found _).bind fun _ _ =>
          (spares_require (by nofun)).bind fun _ _ =>
            (spares_advanceNativeInterpretation hNative _ _).bind fun _ _ => avoids_pure _
  replace hSrc' := found_ok_iff.mp hSrc'
  have hGood' := (lockNativeDelivery_rests hGood hLock).good
  have hOpen : s'.closure.isExpired locked.now = false := by
    simpa using require_ok_iff.mp hCur
  obtain ⟨s, hSrc⟩ : ∃ s, a.native.sources[input.stream]? = some s := by
    simp only [lockNativeDelivery, bind_ok_iff, source, found_ok_iff] at hLock
    obtain ⟨-, -, s, hSrc, -⟩ := hLock
    exact ⟨s, hSrc⟩
  have hCovered := lockNativeDelivery_covered hLock hSrc hSrc' hOpen
  simp only [answerNativeAppend]
  split
  · exact (spares_require (by nofun)).bind fun _ _ => avoids_pure _
  refine (spares_require (by nofun)).bind fun _ _ => (spares_found _).bind fun counters _ => ?_
  split_ifs
  · exact avoids_pure _
  refine Avoids.bind ?_ fun base hBase => (hNative.admission _ _).bind fun _ _ => ?_
  · refine (spares_persisted _).bind fun progress _ => ?_
    split_ifs <;> simp
  obtain ⟨progress, hProg, rfl, -⟩ := checkNativeAppendPosition_ok hBase
  have hFront := frontier_of_resolve (hGood'.native.lane hSrc') hProg
  rw [← ((resolveDeliveryProgress_spec hProg).2).windowBase, hCovered] at hFront
  split
  · refine Avoids.bind ?_ fun _ _ => avoids_pure _
    exact (spares_settleExhaustedBrowserSources hBrowser _ _ _).bind fun _ _ => avoids_pure _
  next fault _ hStored =>
    rw [avoids_error_iff]
    rintro rfl
    simp only [storeNativeBatchResets, reserveDeliveryMetadata] at hStored
    split_ifs at hStored <;> cases hStored
  · exact spares_retainNativeAppendBatch hNative hGood' (hHead s _ hSrc hFront)

end NativeHead

/-- The reservation is free, and an append at the head of a window is not refused for
pending capacity. -/
structure Attempt.KeepsReserve {α β : Type} (browserReading : Reading α) (nativeReading : Reading β)
    (a : Attempt α β) : Prop where
  browser : a.browser.pending ≤ deliveryPendingByteLimit - deliveryRepairReservationBytes
  native : a.native.pending ≤ deliveryPendingByteLimit - deliveryRepairReservationBytes
  browser_repair : ∀ input : BrowserAppend α, input.RepairsHead a.browser →
    (DeliveryOp.appendBrowser input).execute browserReading nativeReading a ≠
      .error (.conflict .pendingCapacity)
  native_repair : ∀ input : NativeAppend β, input.RepairsHead a.native →
    (DeliveryOp.appendNative input).execute browserReading nativeReading a ≠
      .error (.conflict .pendingCapacity)

theorem afterAll_keepsReserve {α β : Type} {browserReading : Reading α} {nativeReading : Reading β}
    (hBrowser : browserReading.Spares) (hNative : nativeReading.Spares) (start : Instant)
    (ops : List (AttemptOp α β)) :
    (Attempt.afterAll browserReading nativeReading start ops).KeepsReserve browserReading
      nativeReading := by
  have hGood := Attempt.afterAll_good browserReading nativeReading start ops
  exact
    { browser := hGood.browser.sound.pending_reserve
      native := hGood.native.sound.pending_reserve
      browser_repair := fun input hHead =>
        (spares_performBrowserAppend hBrowser hGood.browser hHead).bind fun _ _ => avoids_pure _
      native_repair := fun input hHead => spares_executeNativeAppend hBrowser hNative hGood hHead }

theorem plainReading_spares : plainReading.Spares :=
  ⟨fun _ _ => avoids_ok (), fun _ _ _ => avoids_ok (), fun _ _ row => avoids_ok row.payload⟩

def batchAhead : NativeAppend Unit :=
  ⟨0, true, true, false, 2, 0, [], 1, 100, 0, 0, ()⟩

theorem afterAll_keepsReserve_batchAhead : (Attempt.afterAll plainReading plainReading 0
        [.deliver (.connect 60000), .deliver (.appendNative batchAhead)]).native.pending = 100 ∧
      (Attempt.afterAll plainReading plainReading 0
        [.deliver (.connect 60000), .deliver (.appendNative batchAhead)]).KeepsReserve plainReading
          plainReading :=
  ⟨by decide +kernel, afterAll_keepsReserve plainReading_spares plainReading_spares 0 _⟩

end Proctor.Delivery
