import Proctor.Json.Utf8

/-!
# Opening a range of a stored object

`Open` of the memory and of the local backend, after the path and the context have been checked. The
offsets are the machine integers of the source, and a slice out of its bounds panics.
-/

namespace Proctor.Vfs

open Json (Bytes)

/-- The length of a Go slice fits an `int`. -/
structure Object where
  data : Bytes
  fits : data.length < 2 ^ 63

def Object.size (obj : Object) : Int64 := Int64.ofNat obj.data.length

inductive Fault where
  | notFound | isDirectory | invalidRange | panic
deriving DecidableEq, Repr

structure OpenOptions where
  offset : Int64
  length : Int64
deriving DecidableEq, Repr

def OpenOptions.validate (o : OpenOptions) : Bool := !(o.offset < 0 || o.length < 0)

/-- `data[start:stop]`. -/
def slice (data : Bytes) (start stop : Int) : Except Fault Bytes :=
  if 0 ≤ start ∧ start ≤ stop ∧ stop ≤ data.length then .ok ((data.take stop.toNat).drop start.toNat)
  else .error .panic

/-- `Open` of the memory backend, given what its map holds for the name. -/
def memoryOpen (found : Option Object) (o : OpenOptions) : Except Fault Bytes :=
  if !o.validate then .error .invalidRange
  else match found with
    | none => .error .notFound
    | some obj =>
      if o.offset > obj.size then .error .invalidRange
      else
        let stop := if o.length > 0 && o.offset + o.length < obj.size then o.offset + o.length else obj.size
        slice obj.data o.offset.toInt stop.toInt

/-- What the local backend opens: a file, or a directory. -/
inductive Node where
  | file (obj : Object)
  | directory

/-- `Open` of the local backend: the file is read from the offset on, as far as the limit of the reader. -/
def localOpen (found : Option Node) (o : OpenOptions) : Except Fault Bytes :=
  if !o.validate then .error .invalidRange
  else match found with
    | none => .error .notFound
    | some .directory => .error .isDirectory
    | some (.file obj) =>
      if o.offset > obj.size then .error .invalidRange
      else
        let rest := obj.data.drop o.offset.toInt.toNat
        .ok (if o.length > 0 then rest.take (min o.length (obj.size - o.offset)).toInt.toNat else rest)

/-- The range that the options name, over the integers. -/
def OpenOptions.range (o : OpenOptions) (data : Bytes) : Except Fault Bytes :=
  if o.offset.toInt > data.length then .error .invalidRange
  else
    let rest := data.drop o.offset.toInt.toNat
    .ok (if o.length = 0 then rest else rest.take o.length.toInt.toNat)

variable {o : OpenOptions} {obj : Object}

theorem Object.size_toInt (obj : Object) : obj.size.toInt = obj.data.length := by
  have := obj.fits
  rw [Object.size, Int64.toInt_ofNat_of_lt this]

theorem OpenOptions.validate_iff : o.validate ↔ 0 ≤ o.offset.toInt ∧ 0 ≤ o.length.toInt := by
  simp [OpenOptions.validate, Int64.lt_iff_toInt_lt]

theorem offset_gt_iff : o.offset > obj.size ↔ o.offset.toInt > obj.data.length := by
  rw [gt_iff_lt, Int64.lt_iff_toInt_lt, obj.size_toInt, gt_iff_lt]

theorem length_pos_iff (hValid : o.validate) : o.length > 0 ↔ o.length ≠ 0 := by
  have hLength := (OpenOptions.validate_iff.mp hValid).2
  rw [gt_iff_lt, Int64.lt_iff_toInt_lt, ne_eq, ← Int64.toInt_inj, Int64.toInt_zero]
  omega

theorem localOpen_eq_range (hValid : o.validate) : localOpen (some (.file obj)) o = o.range obj.data := by
  obtain ⟨hOffset, hLength⟩ := OpenOptions.validate_iff.mp hValid
  simp only [localOpen, OpenOptions.range, hValid, Bool.not_true, Bool.false_eq_true, if_false, offset_gt_iff,
    length_pos_iff hValid]
  split
  · rfl
  next hWithin =>
  by_cases hZero : o.length = 0
  · simp [hZero]
  have hRest : (obj.size - o.offset).toInt = obj.data.length - o.offset.toInt := by
    have := obj.fits
    rw [Int64.toInt_sub, obj.size_toInt, Int.bmod_eq_of_le] <;> omega
  rw [if_pos hZero, if_neg hZero]
  congr 1
  change List.take (if o.length ≤ obj.size - o.offset then o.length else obj.size - o.offset).toInt.toNat _ = _
  split
  · rfl
  next hShort =>
  rw [Int64.le_iff_toInt_le, hRest] at hShort
  rw [hRest, List.take_of_length_le, List.take_of_length_le] <;> rw [List.length_drop] <;> omega

theorem slice_eq_ok {data : Bytes} {start stop : Int} (hStart : 0 ≤ start) (hStop : start ≤ stop)
    (hEnd : stop ≤ data.length) : slice data start stop = .ok ((data.drop start.toNat).take (stop - start).toNat) := by
  rw [slice, if_pos ⟨hStart, hStop, hEnd⟩, List.drop_take]
  congr 2
  omega

/-- The sum of the memory backend wraps to a negative bound, which no slice has. -/
theorem memoryOpen_eq_range_iff (hValid : o.validate) : memoryOpen (some obj) o = o.range obj.data ↔
    obj.data.length < o.offset.toInt ∨ o.offset.toInt + o.length.toInt < 2 ^ 63 := by
  obtain ⟨hOffset, hLength⟩ := OpenOptions.validate_iff.mp hValid
  have hSize := obj.fits
  have hTop := Int64.toInt_lt o.length
  have hZero : o.length = 0 ↔ o.length.toInt = 0 := Int64.toInt_inj.symm
  have hSum : (o.offset + o.length).toInt = (o.offset.toInt + o.length.toInt).bmod (2 ^ 64) := Int64.toInt_add ..
  simp only [memoryOpen, OpenOptions.range, hValid, Bool.not_true, Bool.false_eq_true, if_false,
    length_pos_iff hValid, Int64.lt_iff_toInt_lt, obj.size_toInt, Bool.and_eq_true, decide_eq_true_eq]
  split
  next hBeyond => exact iff_of_true rfl (.inl hBeyond)
  next hWithin =>
  rw [or_iff_right hWithin]
  have hLast : o.offset.toInt < 2 ^ 63 := Int64.toInt_lt o.offset
  by_cases hFits : o.offset.toInt + o.length.toInt < 2 ^ 63
  · refine iff_of_true ?_ hFits
    rw [Int.bmod_eq_of_le (by omega) (by omega)] at hSum
    rw [hSum]
    split
    next hShort =>
      rw [hSum, slice_eq_ok hOffset (by omega) (by omega), if_neg hShort.1,
        show o.offset.toInt + o.length.toInt - o.offset.toInt = o.length.toInt by omega]
    next hLong =>
      rw [obj.size_toInt, slice_eq_ok hOffset (by omega) (by omega),
        List.take_of_length_le (by rw [List.length_drop]; omega)]
      split
      · rfl
      next hSome =>
      have := not_and.mp hLong hSome
      rw [List.take_of_length_le (by rw [List.length_drop]; omega)]
  · refine iff_of_false ?_ hFits
    have hWrap : (o.offset + o.length).toInt < 0 := by
      rw [hSum, Int.bmod_def]
      omega
    rw [if_pos ⟨fun h => by rw [hZero] at h; omega, by omega⟩, slice, if_neg (by omega)]
    nofun

/-- Options that pass `Validate`. -/
abbrev ValidOptions := { o : OpenOptions // o.validate }

theorem backends_open_range_iff (o : ValidOptions) (obj : Object) :
    memoryOpen (some obj) o = o.val.range obj.data ∧ localOpen (some (.file obj)) o = o.val.range obj.data ↔
      obj.data.length < o.val.offset.toInt ∨ o.val.offset.toInt + o.val.length.toInt < 2 ^ 63 := by
  rw [and_iff_left (localOpen_eq_range o.property)]
  exact memoryOpen_eq_range_iff o.property

/-- All that follows the only byte of an object. -/
theorem longest_range_panics : (⟨1, Int64.maxValue⟩ : OpenOptions).validate ∧
    memoryOpen (some ⟨[7], by decide⟩) ⟨1, Int64.maxValue⟩ = .error .panic ∧
    localOpen (some (.file ⟨[7], by decide⟩)) ⟨1, Int64.maxValue⟩ = .ok [] := by
  decide

end Proctor.Vfs
