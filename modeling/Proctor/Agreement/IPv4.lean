import Proctor.Agreement.BrowserPolicy

/-!
# Numeric hosts

The IPv4 parser of the URL standard, which computes in unbounded integers, against the one of the
server, which stops at 32 bits for each part.
-/

namespace Proctor.Agreement

open ExamPolicy List Option

/-- The integer that the digits denote in the radix. -/
def denoted (radix : Nat) (digits : Text) : Option Nat :=
  (digits.mapM fun c => (fromHex c).filter (· < radix)).map (Nat.ofDigits radix ·.reverse)

/-- The IPv4 number parser of the standard. -/
def standardNumber : Text → Option Nat
  | [] => none
  | '0' :: 'x' :: digits | '0' :: 'X' :: digits => denoted 16 digits
  | '0' :: c :: digits => denoted 8 (c :: digits)
  | digits => denoted 10 digits

def hostParts (host : Text) : List Text :=
  let parts := host.splitOn '.'
  if parts.length > 1 && parts.getLast? = some [] then parts.dropLast else parts

/-- The address of the numbers: all but the last are bytes, the last fills what is left. -/
def joined (numbers : List Nat) : Option Nat := do
  let last ← numbers.getLast?
  if numbers.length > 4 || numbers.dropLast.any (· > 255) || last ≥ 256 ^ (5 - numbers.length) then none
  else some (last + (numbers.dropLast.zipWith (fun n index => n * 256 ^ (3 - index)) (range 4)).sum)

/-- The IPv4 parser of the standard. -/
def standardIPv4 (host : Text) : Option Nat := ((hostParts host).mapM standardNumber).bind joined

def dotted (address : Nat) : Text :=
  intercalate ['.'] ([24, 16, 8, 0].map fun shift => Nat.toDigits 10 (address / 2 ^ shift % 256))

example : (standardIPv4 "0x7f.1".toList).map dotted = some "127.0.0.1".toList := by decide +kernel

theorem foldlM_eq_denoted (radix : Nat) (digits : Text) (start : Nat) :
    digits.foldlM (fun value c => (fromHex c).bind fun digit =>
      if digit < radix then some (radix * value + digit) else none) start =
    (digits.mapM fun c => (fromHex c).filter (· < radix)).map fun values =>
      Nat.ofDigits radix values.reverse + radix ^ values.length * start := by
  induction digits generalizing start with
  | nil => simp
  | cons c digits ih =>
    rw [foldlM_cons, mapM_cons]
    cases fromHex c with
    | none => rfl
    | some digit =>
      by_cases hDigit : digit < radix
      · simp only [bind_some, bind_eq_bind, ih, filter_some, hDigit, decide_true]
        cases digits.mapM fun c => (fromHex c).filter (· < radix) with
        | none => rfl
        | some values =>
          simp [Nat.ofDigits_append, pow_succ]
          ring
      · simp [hDigit, filter_some]

theorem ipv4Number_eq (part : Text) : ipv4Number part = (standardNumber part).filter (· < 2 ^ 32) := by
  have hDenoted (radix : Nat) (digits : Text) : digits.foldlM (fun value c => (fromHex c).bind fun digit =>
      if digit < radix then some (radix * value + digit) else none) 0 = denoted radix digits := by
    simp [foldlM_eq_denoted, denoted]
  unfold standardNumber
  split
  · rfl
  · simp [ipv4Number, hexadecimal, hDenoted]
  · simp [ipv4Number, hexadecimal, hDenoted]
  next c digits hx hX => simp [ipv4Number, hexadecimal, hDenoted, Ne.symm hx, Ne.symm hX]
  next hSome _ _ hOther =>
    rcases part with _ | ⟨c, _ | ⟨d, rest⟩⟩
    · exact absurd rfl hSome
    · simp [ipv4Number, hexadecimal, hDenoted]
    · have hZero : c ≠ '0' := fun h => hOther d rest (by rw [h])
      simp [ipv4Number, hexadecimal, hDenoted, hZero, hZero.symm]

theorem mapM_ipv4Number (parts : List Text) :
    parts.mapM ipv4Number = (parts.mapM standardNumber).filter (·.all (· < 2 ^ 32)) := by
  induction parts with
  | nil => rfl
  | cons part parts ih =>
    rw [mapM_cons, mapM_cons, ih, ipv4Number_eq]
    cases standardNumber part with
    | none => rfl
    | some n =>
      cases parts.mapM standardNumber with
      | none => cases (some n).filter _ <;> rfl
      | some rest =>
        rw [filter_some, filter_some]
        change _ = Option.filter _ (some (n :: rest))
        rw [filter_some, all_cons]
        cases decide (n < 2 ^ 32) <;> cases rest.all (· < 2 ^ 32) <;> rfl

theorem joined_lt {numbers : List Nat} {address : Nat} (h : joined numbers = some address) :
    numbers.all (· < 2 ^ 32) ∧ address < 2 ^ 32 := by
  rcases numbers with _ | ⟨n₁, _ | ⟨n₂, _ | ⟨n₃, _ | ⟨n₄, _ | ⟨n₅, rest⟩⟩⟩⟩⟩ <;>
    simp [joined, range_succ] at h ⊢
  all_goals omega

theorem canonicalBrowserIPv4_eq (host : Text) : canonicalBrowserIPv4 host = (standardIPv4 host).map dotted := by
  have hJoined : canonicalBrowserIPv4 host =
      ((hostParts host).mapM ipv4Number).bind fun numbers => (joined numbers).map dotted := by
    have hPow (k : Nat) : 2 ^ (8 * k) = 256 ^ k := pow_mul 2 8 k
    simp only [canonicalBrowserIPv4, hPow]
    refine bind_congr fun numbers _ => ?_
    simp [joined, map_bind, apply_ite, dotted]
  rw [hJoined, standardIPv4, mapM_ipv4Number]
  cases (hostParts host).mapM standardNumber with
  | none => rfl
  | some numbers =>
    rw [filter_some, bind_some]
    split
    · rfl
    next hLarge =>
      cases hAddress : joined numbers with
      | none => rfl
      | some address => exact absurd (joined_lt hAddress).1 hLarge

theorem standardNumber_toDigits : ∀ n < 256, standardNumber (Nat.toDigits 10 n) = some n ∧ '.' ∉ Nat.toDigits 10 n := by
  decide +kernel

theorem standardIPv4_lt {host : Text} {address : Nat} (h : standardIPv4 host = some address) : address < 2 ^ 32 := by
  obtain ⟨numbers, -, hJoined⟩ := bind_eq_some_iff.mp h
  exact (joined_lt hJoined).2

theorem standardIPv4_dotted {address : Nat} (h : address < 2 ^ 32) : standardIPv4 (dotted address) = some address := by
  have hRead (n : Nat) := standardNumber_toDigits (n % 256) (Nat.mod_lt n (by decide))
  have hParts : hostParts (dotted address) =
      [24, 16, 8, 0].map fun shift => Nat.toDigits 10 (address / 2 ^ shift % 256) := by
    rw [hostParts, dotted, splitOn_intercalate]
    · simp
    · simp [hRead]
    · simp
  rw [standardIPv4, hParts]
  simp [hRead, joined, range_succ]
  omega

/-- A host is read as the standard reads it, its address fits, and the written address is read as itself. -/
theorem canonicalBrowserIPv4_follows_standard (host : Text) :
    canonicalBrowserIPv4 host = (standardIPv4 host).map dotted ∧ (∀ address ∈ standardIPv4 host, address < 2 ^ 32) ∧
      ∀ out ∈ canonicalBrowserIPv4 host, canonicalBrowserIPv4 out = some out := by
  refine ⟨canonicalBrowserIPv4_eq host, fun _ => standardIPv4_lt, fun out hOut => ?_⟩
  rw [canonicalBrowserIPv4_eq] at hOut
  obtain ⟨address, hAddress, rfl⟩ := map_eq_some_iff.mp hOut
  rw [canonicalBrowserIPv4_eq, standardIPv4_dotted (standardIPv4_lt hAddress), map_some]

end Proctor.Agreement
