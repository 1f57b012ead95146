import Proctor.Delivery.Lifecycle

/-!
# Delivery budgets

The quotas of a delivery family in one scope, the reservation of control
metadata, and the admission of pending bytes. A charge that does not fit
freezes the scope in summary-only mode and leaves every counter as it was.
-/

namespace Proctor.Delivery

def deliveryParticipationRecordLimit : Int := 50000
def deliveryAttemptRecordLimit : Int := 200000
def deliveryParticipationByteLimit : Int := 32 * 1024 * 1024
def deliveryAttemptByteLimit : Int := 128 * 1024 * 1024
def nativeParticipationPositionLimit : Int := 20000
def nativeAttemptPositionLimit : Int := 80000
def browserParticipationPositionLimit : Int := 50000
def deliveryPendingByteLimit : Int := 2 * 1024 * 1024
def deliveryRepairReservationBytes : Int := 320 * 1024
def deliveryMetadataLimitBytes : Int := 2 * 1024 * 1024
def securityControlReceiptLimit : Int := 128
def securityControlReceiptMaxBytes : Int := 2048
def securityControlCacheMaxBytes : Int :=
  securityControlReceiptLimit * securityControlReceiptMaxBytes + securityControlReceiptLimit + 1
def nativeOwnerReservationBytes : Int :=
  128 * 1024 + 2 * 64 * 1024 + securityControlCacheMaxBytes + 16 * 1024 + 3 * 2048 + 4096 + 512
def browserOwnerReservationBytes : Int := 16 * 1024 + 4 * 2048 + 4096 + 512

def reserveDeliveryMetadata (used required : Int) : Except Fault Int :=
  if used < 0 || used > deliveryMetadataLimitBytes || required ≤ 0 ||
      required > deliveryMetadataLimitBytes then .error .metadataInvalid
  else if required > deliveryMetadataLimitBytes - used then .error .metadataCapacity
  else .ok (used + required)

inductive DeliveryStopReason where
  | records
  | bytes
  | positions
  | metadata
  | localLossInventoryExhausted
deriving DecidableEq, Repr

structure DeliveryQuotaUsage where
  retainedRecords : Int
  retainedBytes : Int
  allocatedPositions : Int
  recordLimit : Int
  byteLimit : Int
  positionLimit : Int
  summaryOnly : Bool
  stopReason : Option DeliveryStopReason
deriving DecidableEq, Repr

def recordLimitOf (attempt : Bool) : Int :=
  if attempt then deliveryAttemptRecordLimit else deliveryParticipationRecordLimit

def byteLimitOf (attempt : Bool) : Int :=
  if attempt then deliveryAttemptByteLimit else deliveryParticipationByteLimit

def positionLimitOf (native attempt : Bool) : Int :=
  match native, attempt with
  | false, false => browserParticipationPositionLimit
  | true, false => nativeParticipationPositionLimit
  | false, true => browserAttemptPositionLimit
  | true, true => nativeAttemptPositionLimit

def newDeliveryQuotaUsage (native attempt : Bool) : DeliveryQuotaUsage :=
  ⟨0, 0, 0, recordLimitOf attempt, byteLimitOf attempt, positionLimitOf native attempt, false, none⟩

def DeliveryQuotaUsage.validate (q : DeliveryQuotaUsage) : Bool :=
  securitySafeInt q.retainedRecords && securitySafeInt q.retainedBytes &&
    securitySafeInt q.allocatedPositions && securitySafeInt q.recordLimit &&
    securitySafeInt q.byteLimit && securitySafeInt q.positionLimit && !(q.recordLimit < 1) &&
    !(q.byteLimit < 1) && !(q.positionLimit < 1) && !(q.retainedRecords > q.recordLimit) &&
    !(q.retainedBytes > q.byteLimit) && !(q.allocatedPositions > q.positionLimit) &&
    q.summaryOnly == q.stopReason.isSome

def DeliveryQuotaUsage.exceeded (q : DeliveryQuotaUsage) (records bytes positions : Int) :
    Option DeliveryStopReason :=
  if records > q.recordLimit - q.retainedRecords then some .records
  else if bytes > q.byteLimit - q.retainedBytes then some .bytes
  else if positions > q.positionLimit - q.allocatedPositions then some .positions
  else none

def DeliveryQuotaUsage.charge (q : DeliveryQuotaUsage) (records bytes positions : Int) :
    Except Fault DeliveryQuotaUsage :=
  if !q.validate || !securitySafeInt records || !securitySafeInt bytes ||
      !securitySafeInt positions then .error .quotaInvalid
  else if q.summaryOnly then .ok q
  else match q.exceeded records bytes positions with
    | some reason => .ok { q with summaryOnly := true, stopReason := some reason }
    | none =>
      .ok { q with
        retainedRecords := q.retainedRecords + records
        retainedBytes := q.retainedBytes + bytes
        allocatedPositions := q.allocatedPositions + positions }

def canRetainPendingDelivery (pending retained retainedLimit bytes : Int)
    (repair recoverableGap : Bool) : Bool :=
  if !securitySafeInt pending || !securitySafeInt retained || !securitySafeInt retainedLimit ||
      !securitySafeInt bytes || pending > deliveryPendingByteLimit || retained > retainedLimit then
    false
  else
    let pendingLimit :=
      if repair then deliveryPendingByteLimit
      else deliveryPendingByteLimit - deliveryRepairReservationBytes
    let limit :=
      if !repair && recoverableGap then retainedLimit - deliveryRepairReservationBytes
      else retainedLimit
    bytes ≤ pendingLimit - pending && bytes ≤ limit - retained

/-! ## What a charge does -/

variable {bytes pending retained retainedLimit : Int} {recoverableGap : Bool}

theorem DeliveryQuotaUsage.charge_fits {q q' : DeliveryQuotaUsage} {records positions : Int}
    (hCharge : q.charge records bytes positions = .ok q') (hColl : q'.summaryOnly = false) :
    q.summaryOnly = false ∧ 0 ≤ records ∧ 0 ≤ bytes ∧ 0 ≤ positions ∧
      q.retainedRecords + records ≤ q.recordLimit ∧ q.retainedBytes + bytes ≤ q.byteLimit ∧
      q.allocatedPositions + positions ≤ q.positionLimit ∧
      q' = { q with
        retainedRecords := q.retainedRecords + records
        retainedBytes := q.retainedBytes + bytes
        allocatedPositions := q.allocatedPositions + positions } := by
  simp only [charge] at hCharge
  split at hCharge
  · cases hCharge
  next hValid =>
    simp only [Bool.or_eq_true, Bool.not_eq_true', not_or, Bool.not_eq_false, securitySafeInt,
      Bool.and_eq_true, decide_eq_true_eq] at hValid
    obtain ⟨⟨⟨-, hRecs, -⟩, hBytes, -⟩, hPos, -⟩ := hValid
    split at hCharge
    next hLatch =>
      cases hCharge
      simp [hLatch] at hColl
    next hOpen =>
      split at hCharge
      · cases hCharge
        simp at hColl
      next hNone =>
        cases hCharge
        simp only [exceeded] at hNone
        split_ifs at hNone with h₁ h₂ h₃
        exact ⟨by simpa using hOpen, hRecs, hBytes, hPos, by omega, by omega, by omega, rfl⟩

/-- Repair within one request's reservation is admitted while the pending
bytes leave that reservation free. -/
theorem canRetainPendingDelivery_repair (hPend : 0 ≤ pending)
    (hFree : pending ≤ deliveryPendingByteLimit - deliveryRepairReservationBytes)
    (hBytes : 0 ≤ bytes) (hReq : bytes ≤ deliveryRepairReservationBytes)
    (hRet : 0 ≤ retained) (hFits : retained + bytes ≤ retainedLimit)
    (hLimit : retainedLimit ≤ 9007199254740991) :
    canRetainPendingDelivery pending retained retainedLimit bytes true recoverableGap := by
  simp only [deliveryPendingByteLimit, deliveryRepairReservationBytes] at *
  simp [canRetainPendingDelivery, securitySafeInt, deliveryPendingByteLimit]
  omega

theorem canRetainPendingDelivery_within
    (hRetain : canRetainPendingDelivery pending retained retainedLimit bytes false recoverableGap =
      true) : pending + bytes ≤ deliveryPendingByteLimit - deliveryRepairReservationBytes := by
  simp only [canRetainPendingDelivery] at hRetain
  split at hRetain
  · cases hRetain
  · simp only [Bool.false_eq_true, if_false, Bool.and_eq_true, decide_eq_true_eq] at hRetain
    omega

/-! ## The append allowances

Times are in microseconds. A refill counts whole milliseconds: a debit may lose a fraction of one and
never gains any. -/

inductive AppendKind where
  | browser | native
  deriving DecidableEq

structure Rate where
  tokens : Int := 8000
  time : Option Int := none

def Rate.refilled (rate : Rate) (now : Int) : Int :=
  match rate.time with
  | none => rate.tokens
  | some time => min 8000 (rate.tokens + min 4000 (max 0 ((now - time).tdiv 1000)) * 2)

def Rate.debit (rate : Rate) (now : Int) : Rate × Bool :=
  let tokens := rate.refilled now
  (⟨if 1000 ≤ tokens then tokens - 1000 else tokens, some now⟩, decide (1000 ≤ tokens))

/-- The buckets of a row in `exam_attempt_delivery_budgets`. -/
abbrev Rates := AppendKind → Rate

def debitAppend (kind : AppendKind) (rates : Rates) (now : Int) : Rates × Bool :=
  (Function.update rates kind ((rates kind).debit now).1, ((rates kind).debit now).2)

def debitBrowserAppend := debitAppend .browser

def debitNativeAppend := debitAppend .native

structure AppendAttempt where
  kind : AppendKind
  now : Int

/-- The row after a run of attempts, and the attempts that are allowed. -/
def Rates.run (rates : Rates) : List AppendAttempt → Rates × List AppendAttempt
  | [] => (rates, [])
  | a :: rest =>
    let debited := debitAppend a.kind rates a.now
    let result := run debited.1 rest
    (result.1, if debited.2 then a :: result.2 else result.2)

def Rates.initial : Rates := fun _ => {}

variable {start stop now : Int} {rate : Rate} {rates : Rates} {count : Nat} {kind : AppendKind}

/-- The attempts counted in the window from `start` to `stop` are paid for: by the full bucket that it
may have begun with and by what was refilled since. -/
structure Paid (start stop : Int) (rate : Rate) (count : Nat) : Prop where
  tokens : 0 ≤ rate.tokens ∧ rate.tokens ≤ 8000
  total : 1000000 * count ≤ 8000000 + 2 * (stop - start)
  before : (∀ time ∈ rate.time, time < start) → count = 0
  within : ∀ time ∈ rate.time, start ≤ time → time ≤ stop →
    1000000 * count + 1000 * rate.tokens ≤ 8000000 + 2 * (time - start)

section

variable (h : Paid start stop rate count) (hLe : ∀ time ∈ rate.time, time ≤ now)
include h hLe

theorem Paid.refilled : (0 ≤ rate.refilled now ∧ rate.refilled now ≤ 8000) ∧ (start ≤ now → now ≤ stop →
    1000000 * count + 1000 * rate.refilled now ≤ 8000000 + 2 * (now - start)) := by
  obtain ⟨hTokens, -, hBefore, hWithin⟩ := h
  cases hTime : rate.time with
  | none => grind [Rate.refilled]
  | some time =>
    have hSince := hLe time hTime
    simp only [Rate.refilled, hTime, Int.tdiv_eq_ediv_of_nonneg (Int.sub_nonneg_of_le hSince)]
    by_cases hStart : start ≤ time <;> grind

theorem Paid.debit : Paid start stop (rate.debit now).1
    (count + if (rate.debit now).2 ∧ start ≤ now ∧ now ≤ stop then 1 else 0) := by
  obtain ⟨hTokens, hWithin⟩ := h.refilled hLe
  have hTotal := h.total
  have hBefore (hNow : now < start) : count = 0 :=
    h.before fun time hTime => Int.lt_of_le_of_lt (hLe time hTime) hNow
  constructor <;> grind [Rate.debit]

end

theorem Rates.run_paid {attempts : List AppendAttempt} (h : Paid start stop (rates kind) count)
    (hFirst : ∀ a ∈ attempts, a.kind = kind → ∀ time ∈ (rates kind).time, time ≤ a.now)
    (hTimes : attempts.Pairwise fun a b => a.kind = b.kind → a.now ≤ b.now) :
    Paid start stop ((rates.run attempts).1 kind) (count +
      (rates.run attempts).2.countP fun a => a.kind = kind ∧ start ≤ a.now ∧ a.now ≤ stop) := by
  induction attempts generalizing rates count with
  | nil => exact h
  | cons a rest ih =>
    rw [List.forall_mem_cons] at hFirst
    rw [List.pairwise_cons] at hTimes
    simp only [run, debitAppend]
    by_cases hKind : kind = a.kind
    · subst hKind
      have hRest := @ih (Function.update rates a.kind ((rates a.kind).debit a.now).1)
      simp only [Function.update_self] at hRest
      specialize hRest (h.debit (hFirst.1 rfl))
        (by rintro b hb hSame _ ⟨⟩; exact hTimes.1 b hb hSame.symm) hTimes.2
      rw [Nat.add_right_comm, Nat.add_assoc] at hRest
      by_cases hAllowed : ((rates a.kind).debit a.now).2 <;> simpa [hAllowed, List.countP_cons] using hRest
    · have hSame := Function.update_of_ne hKind ((rates a.kind).debit a.now).1 rates
      rw [← hSame] at h hFirst
      have hRest := ih h hFirst.2 hTimes.2
      by_cases hAllowed : ((rates a.kind).debit a.now).2 <;> simpa [hAllowed, Ne.symm hKind] using hRest

/-- No window of `T` milliseconds admits more than `8 + 2T / 1000` attempts, and the tokens stay in
their range. -/
theorem allowed_within_window (kind : AppendKind) (attempts : List AppendAttempt)
    (hTimes : attempts.Pairwise fun a b => a.kind = b.kind → a.now ≤ b.now) (start : Int) (T : Nat) :
    let (rates, allowed) := Rates.initial.run attempts
    (0 ≤ (rates kind).tokens ∧ (rates kind).tokens ≤ 8000) ∧ 1000 * allowed.countP
      (fun a => a.kind = kind ∧ start ≤ a.now ∧ a.now ≤ start + 1000 * T) ≤ 8000 + 2 * T := by
  have hFull : Paid start (start + 1000 * T) (Rates.initial kind) 0 := by
    constructor <;> simp [Rates.initial]
    omega
  have hPaid := Rates.run_paid hFull (by simp [Rates.initial]) hTimes
  have hTotal := hPaid.total
  exact ⟨hPaid.tokens, by omega⟩

theorem allowed_within_window_burst : (Rates.initial.run (List.replicate 9 ⟨.native, 0⟩)).2.length = 8 ∧
    1000 * (Rates.initial.run (List.replicate 9 ⟨.native, 0⟩)).2.countP
      (fun a => a.kind = .native ∧ 0 ≤ a.now ∧ a.now ≤ 0 + 1000 * ((0 : Nat) : Int)) ≤ 8000 + 2 * 0 :=
  ⟨by decide, (allowed_within_window .native (List.replicate 9 ⟨.native, 0⟩) (by simp) 0 0).2⟩

end Proctor.Delivery
