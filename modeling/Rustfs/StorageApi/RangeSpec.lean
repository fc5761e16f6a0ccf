import Rustfs.Library.Outcome
import Mathlib.Algebra.BigOperators.Group.List.Basic
import Mathlib.Algebra.Order.Ring.Int

/-!
# Range specifications

`HTTPRangeSpec` of `storage-api/src/object.rs`: one record for open-ended, suffix and part ranges.
An end of `-1` means that the range runs to the end of the object. `usize` has 64 bits. The part
sizes are given as a list, however the caller has them.
-/

namespace Rustfs.StorageApi

open List Option Library

inductive HTTPRangeError where
  | invalidRangeSpec (message : String)
  deriving DecidableEq

structure HTTPRangeSpec where
  isSuffixLength : Bool
  start : Int64
  rangeEnd : Int64
  deriving DecidableEq

def notSatisfiable : HTTPRangeError := .invalidRangeSpec "The requested range is not satisfiable"

def checkedAdd (left right : Int64) : Option Int64 :=
  if -2 ^ 63 ≤ left.toInt + right.toInt ∧ left.toInt + right.toInt < 2 ^ 63 then
    some (left + right)
  else none

def checkedSub (left right : Int64) : Option Int64 :=
  if -2 ^ 63 ≤ left.toInt - right.toInt ∧ left.toInt - right.toInt < 2 ^ 63 then
    some (left - right)
  else none

/-- The loop of `from_part_sizes`, at the bounds of the part before. -/
def partBounds : Nat → List Int64 → Int64 × Int64 → Option (Int64 × Int64)
  | 0, _, bounds => some bounds
  | _ + 1, [], _ => none
  | count + 1, partSize :: parts, (_, rangeEnd) => do
    let start ← checkedAdd rangeEnd 1
    let past ← checkedAdd start partSize
    let rangeEnd ← checkedSub past 1
    partBounds count parts (start, rangeEnd)

def HTTPRangeSpec.fromPartSizes (objectSize : Int64) (partNumber : Nat) (partSizes : List Int64) :
    Option HTTPRangeSpec :=
  if objectSize = 0 ∨ partNumber = 0 then none
  else do
    let (start, rangeEnd) ← partBounds partNumber partSizes (0, -1)
    return { isSuffixLength := false, start, rangeEnd }

def HTTPRangeSpec.suffixLen (spec : HTTPRangeSpec) : Except HTTPRangeError Int64 :=
  if spec.start < 0 then
    if spec.start = Int64.minValue then
      .error (.invalidRangeSpec "range value invalid: suffix length overflow")
    else .ok (-spec.start)
  else .ok spec.start

def HTTPRangeSpec.getLength (spec : HTTPRangeSpec) (resSize : Int64) :
    Except HTTPRangeError Int64 :=
  if resSize < 0 then .error notSatisfiable
  else if spec.isSuffixLength then do
    let specifiedLen ← spec.suffixLen
    return if specifiedLen > resSize then resSize else specifiedLen
  else if spec.start ≥ resSize then .error notSatisfiable
  else if spec.rangeEnd > -1 then
    let rangeEnd := if resSize ≤ spec.rangeEnd then resSize - 1 else spec.rangeEnd
    .ok (rangeEnd - spec.start + 1)
  else if spec.rangeEnd = -1 then .ok (resSize - spec.start)
  else .error (.invalidRangeSpec ("range value invalid: start=" ++ toString spec.start ++
    ", end=" ++ toString spec.rangeEnd ++ ", expected start <= end and end >= -1"))

def HTTPRangeSpec.getOffset (spec : HTTPRangeSpec) (resSize : Int64) :
    Except HTTPRangeError Int64 :=
  if spec.isSuffixLength then do
    let suffixLen ← spec.suffixLen
    return if resSize - suffixLen < 0 then 0 else resSize - suffixLen
  else .ok spec.start

def HTTPRangeSpec.getOffsetLength (spec : HTTPRangeSpec) (resSize : Int64) :
    Except HTTPRangeError (Nat × Int64) := do
  let len ← spec.getLength resSize
  let start ← spec.getOffset resSize
  if start < 0 then .error (.invalidRangeSpec "range value invalid: start offset overflow")
  else return (start.toInt.toNat, len)

def HTTPRangeSpec.Selects (spec : HTTPRangeSpec) (resSize : Int64) (position : Int) : Prop :=
  0 ≤ position ∧ position < resSize.toInt ∧
    if spec.isSuffixLength then resSize.toInt - spec.start.toInt.natAbs ≤ position
    else spec.start.toInt ≤ position ∧
      (spec.rangeEnd.toInt = -1 ∨ position ≤ spec.rangeEnd.toInt)

/-- A resolved range lies inside the object and covers the positions that the specification
selects. -/
def HTTPRangeSpec.ResolvesInside (spec : HTTPRangeSpec) (resSize : Int64) : Prop :=
  ∀ offset len, spec.getOffsetLength resSize = .ok (offset, len) →
    0 ≤ len.toInt ∧ offset + len.toInt ≤ resSize.toInt ∧
      ∀ position : Int, (offset ≤ position ∧ position < offset + len.toInt) ↔
        spec.Selects resSize position

/-- The end lies in the object and before the start by more than one. -/
def HTTPRangeSpec.Backward (spec : HTTPRangeSpec) (resSize : Int64) : Prop :=
  spec.isSuffixLength = false ∧ 0 ≤ spec.rangeEnd.toInt ∧
    spec.rangeEnd.toInt + 1 < spec.start.toInt ∧ spec.start.toInt < resSize.toInt

def sizeSum (parts : List Int64) : Int := (parts.map Int64.toInt).sum

/-- The part's range resolves to its offset and length; an empty part may be refused. -/
def PartResolves (size : Int64) (partNumber : Nat) (parts : List Int64) : Prop :=
  ∃ spec, HTTPRangeSpec.fromPartSizes size partNumber parts = some spec ∧
    match spec.getOffsetLength size with
    | .ok (offset, len) => (offset : Int) = sizeSum (parts.take (partNumber - 1)) ∧
        offset + len.toInt = sizeSum (parts.take partNumber)
    | .error _ => sizeSum (parts.take partNumber) = sizeSum (parts.take (partNumber - 1))

variable {value : Int64} {parts : List Int64}

theorem to_int_of_fits {result : Int} (wrapped : value.toInt = result.bmod (2 ^ 64))
    (low : -2 ^ 63 ≤ result) (high : result < 2 ^ 63) : value.toInt = result := by
  rw [wrapped]
  exact Int.bmod_eq_of_le (by omega) (by omega)

theorem add_fits {left right : Int64} (low : -2 ^ 63 ≤ left.toInt + right.toInt)
    (high : left.toInt + right.toInt < 2 ^ 63) : (left + right).toInt = left.toInt + right.toInt :=
  to_int_of_fits (Int64.toInt_add _ _) low high

theorem sub_fits {left right : Int64} (low : -2 ^ 63 ≤ left.toInt - right.toInt)
    (high : left.toInt - right.toInt < 2 ^ 63) : (left - right).toInt = left.toInt - right.toInt :=
  to_int_of_fits (Int64.toInt_sub _ _) low high

theorem int64_bounds (value : Int64) : -2 ^ 63 ≤ value.toInt ∧ value.toInt < 2 ^ 63 :=
  ⟨value.le_toInt, value.toInt_lt⟩

theorem lt_zero : value < 0 ↔ value.toInt < 0 := by
  rw [Int64.lt_iff_toInt_lt, Int64.toInt_zero]

section

variable {spec : HTTPRangeSpec} {resSize len : Int64} {offset : Nat}

theorem suffix_len_ok {suffixLen : Int64} (isLen : spec.suffixLen = .ok suffixLen) :
    suffixLen.toInt = spec.start.toInt.natAbs := by
  have bounds := int64_bounds spec.start
  unfold HTTPRangeSpec.suffixLen at isLen
  split_ifs at isLen with negative least
  · rw [← Except.ok.inj isLen]
    have above : spec.start.toInt ≠ -2 ^ 63 := fun isLeast =>
      least (Int64.toInt_inj.1 (isLeast.trans Int64.toInt_minValue.symm))
    have below := lt_zero.1 negative
    rw [to_int_of_fits (Int64.toInt_neg _) (by omega) (by omega)]
    omega
  · rw [← Except.ok.inj isLen]
    have natural := mt lt_zero.2 negative
    omega

theorem offset_length_ok (resolved : spec.getOffsetLength resSize = .ok (offset, len)) :
    spec.getLength resSize = .ok len ∧
      ∃ start, spec.getOffset resSize = .ok start ∧ (offset : Int) = start.toInt := by
  obtain ⟨_, isLen, resolved⟩ := Outcome.bind_eq_ok.1 resolved
  obtain ⟨start, isStart, resolved⟩ := Outcome.bind_eq_ok.1 resolved
  split_ifs at resolved with negative
  obtain ⟨isOffset, rfl⟩ := Prod.mk.inj (Except.ok.inj resolved)
  have natural := mt lt_zero.2 negative
  exact ⟨isLen, start, isStart, by omega⟩

theorem get_length_natural (resolved : spec.getLength resSize = .ok len) : 0 ≤ resSize.toInt := by
  unfold HTTPRangeSpec.getLength at resolved
  split_ifs at resolved with negative
  all_goals
    have natural := mt lt_zero.2 negative
    omega

theorem suffix_resolved (suffix : spec.isSuffixLength = true)
    (resolved : spec.getOffsetLength resSize = .ok (offset, len)) :
    0 ≤ resSize.toInt ∧ len.toInt = min (spec.start.toInt.natAbs : Int) resSize.toInt ∧
      offset + len.toInt = resSize.toInt := by
  obtain ⟨isLen, start, isStart, isOffset⟩ := offset_length_ok resolved
  have natural := get_length_natural isLen
  have bounds := int64_bounds resSize
  rw [HTTPRangeSpec.getLength, if_neg (fun negative => by rw [lt_zero] at negative; omega),
    if_pos suffix] at isLen
  rw [HTTPRangeSpec.getOffset, if_pos suffix] at isStart
  obtain ⟨suffixLen, isSuffixLen, isLen⟩ := Outcome.bind_eq_ok.1 isLen
  obtain ⟨_, again, isStart⟩ := Outcome.bind_eq_ok.1 isStart
  obtain rfl := Except.ok.inj (isSuffixLen.symm.trans again)
  have absolute := suffix_len_ok isSuffixLen
  have lenBounds := int64_bounds suffixLen
  have difference : (resSize - suffixLen).toInt = resSize.toInt - suffixLen.toInt :=
    sub_fits (by omega) (by omega)
  have cut : len.toInt = min suffixLen.toInt resSize.toInt := by
    rw [← Except.ok.inj isLen]
    split_ifs with longer
    all_goals
      rw [gt_iff_lt, Int64.lt_iff_toInt_lt] at longer
      omega
  have begins : start.toInt = max 0 (resSize.toInt - suffixLen.toInt) := by
    rw [← Except.ok.inj isStart]
    split_ifs with negative
    all_goals
      rw [lt_zero, difference] at negative
    · rw [Int64.toInt_zero]
      omega
    · omega
  omega

def HTTPRangeSpec.pastEnd (spec : HTTPRangeSpec) (resSize : Int64) : Int :=
  if spec.rangeEnd.toInt = -1 then resSize.toInt
  else min (spec.rangeEnd.toInt + 1) resSize.toInt

theorem minus_one_lt : value > -1 ↔ 0 ≤ value.toInt := by
  rw [gt_iff_lt, Int64.lt_iff_toInt_lt]
  exact Iff.rfl

theorem get_length_forward (forward : spec.isSuffixLength = false)
    (low : 0 ≤ spec.start.toInt) (inside : spec.start.toInt < resSize.toInt)
    (least : -1 ≤ spec.rangeEnd.toInt) :
    ∃ len, spec.getLength resSize = .ok len ∧
      len.toInt = spec.pastEnd resSize - spec.start.toInt := by
  have bounds := int64_bounds resSize
  unfold HTTPRangeSpec.getLength
  rw [if_neg (fun negative => by rw [lt_zero] at negative; omega), if_neg (by rw [forward]; decide),
    if_neg (fun past => by rw [ge_iff_le, Int64.le_iff_toInt_le] at past; omega)]
  by_cases bounded : 0 ≤ spec.rangeEnd.toInt
  · rw [if_pos (minus_one_lt.2 bounded), HTTPRangeSpec.pastEnd,
      if_neg (show ¬spec.rangeEnd.toInt = -1 by omega)]
    refine ⟨_, rfl, ?_⟩
    have isOne : (1 : Int64).toInt = 1 := rfl
    split_ifs with past <;> rw [Int64.le_iff_toInt_le] at past
    · have last : (resSize - 1).toInt = resSize.toInt - (1 : Int64).toInt :=
        sub_fits (by omega) (by omega)
      have span : (resSize - 1 - spec.start).toInt = (resSize - 1).toInt - spec.start.toInt :=
        sub_fits (by omega) (by omega)
      rw [add_fits (by omega) (by omega)]
      omega
    · have span : (spec.rangeEnd - spec.start).toInt = spec.rangeEnd.toInt - spec.start.toInt :=
        sub_fits (by omega) (by omega)
      rw [add_fits (by omega) (by omega)]
      omega
  · have isOpen : spec.rangeEnd = -1 := Int64.toInt_inj.1 (by
      rw [show (-1 : Int64).toInt = -1 from rfl]
      omega)
    rw [if_neg (mt minus_one_lt.1 bounded), if_pos isOpen, HTTPRangeSpec.pastEnd, if_pos (by omega)]
    exact ⟨_, rfl, sub_fits (by omega) (by omega)⟩

theorem forward_resolved (forward : spec.isSuffixLength = false)
    (resolved : spec.getOffsetLength resSize = .ok (offset, len)) :
    0 ≤ spec.start.toInt ∧ spec.start.toInt < resSize.toInt ∧ -1 ≤ spec.rangeEnd.toInt ∧
      (offset : Int) = spec.start.toInt ∧
      offset + len.toInt = spec.pastEnd resSize := by
  obtain ⟨isLen, start, isStart, isOffset⟩ := offset_length_ok resolved
  rw [HTTPRangeSpec.getOffset, if_neg (by rw [forward]; decide)] at isStart
  obtain rfl := Except.ok.inj isStart
  have shape : spec.start.toInt < resSize.toInt ∧ -1 ≤ spec.rangeEnd.toInt := by
    have found := isLen
    unfold HTTPRangeSpec.getLength at found
    split_ifs at found with negative suffix past bounded cut isOpen
    · exact absurd suffix (by rw [forward]; decide)
    all_goals rw [ge_iff_le, Int64.le_iff_toInt_le] at past
    · have natural := minus_one_lt.1 bounded
      omega
    · have natural := minus_one_lt.1 bounded
      omega
    · rw [isOpen]
      exact ⟨by omega, le_of_eq rfl⟩
  obtain ⟨len', isLen', spans⟩ := get_length_forward forward (by omega) shape.1 shape.2
  obtain rfl := Except.ok.inj (isLen.symm.trans isLen')
  omega

theorem forward_resolves (forward : spec.isSuffixLength = false) (low : 0 ≤ spec.start.toInt)
    (inside : spec.start.toInt < resSize.toInt) (least : -1 ≤ spec.rangeEnd.toInt) :
    ∃ offset len, spec.getOffsetLength resSize = .ok (offset, len) := by
  obtain ⟨len, isLen, _⟩ := get_length_forward forward low inside least
  refine ⟨spec.start.toInt.toNat, len, ?_⟩
  rw [HTTPRangeSpec.getOffsetLength, isLen, Outcome.ok_bind, HTTPRangeSpec.getOffset,
    if_neg (by rw [forward]; decide), Outcome.ok_bind,
    if_neg (fun negative => by rw [lt_zero] at negative; omega)]
  rfl

theorem resolves_inside_iff : spec.ResolvesInside resSize ↔ ¬ spec.Backward resSize := by
  constructor
  · rintro inside ⟨forward, natural, backward, starts⟩
    obtain ⟨offset, len, resolved⟩ :=
      forward_resolves forward (by omega) starts (show -1 ≤ spec.rangeEnd.toInt by omega)
    obtain ⟨_, _, _, isOffset, past⟩ := forward_resolved forward resolved
    have negative := (inside offset len resolved).1
    rw [HTTPRangeSpec.pastEnd, if_neg (by omega)] at past
    omega
  · intro notBackward offset len resolved
    unfold HTTPRangeSpec.Selects
    cases suffix : spec.isSuffixLength with
    | true =>
      obtain ⟨natural, isLen, ends⟩ := suffix_resolved suffix resolved
      simp only [if_true]
      exact ⟨by omega, by omega, fun position => by omega⟩
    | false =>
      obtain ⟨low, inside, least, isOffset, past⟩ := forward_resolved suffix resolved
      have forward : spec.rangeEnd.toInt = -1 ∨ spec.start.toInt ≤ spec.rangeEnd.toInt + 1 := by
        by_contra backward
        exact notBackward ⟨suffix, by omega, by omega, inside⟩
      rw [HTTPRangeSpec.pastEnd] at past
      simp only [Bool.false_eq_true, if_false]
      split_ifs at past
      · exact ⟨by omega, by omega, fun position => by omega⟩
      · exact ⟨by omega, by omega, fun position => by omega⟩

end

theorem size_sum_cons (part : Int64) (parts : List Int64) :
    sizeSum (part :: parts) = part.toInt + sizeSum parts := sum_cons

theorem size_sum_nonneg (natural : ∀ part ∈ parts, 0 ≤ part.toInt) : 0 ≤ sizeSum parts := by
  induction parts with
  | nil => exact le_of_eq rfl
  | cons part parts ih =>
    rw [size_sum_cons]
    have first := natural part mem_cons_self
    have others := ih fun other member => natural other (mem_cons_of_mem _ member)
    omega

theorem size_sum_take_le (natural : ∀ part ∈ parts, 0 ≤ part.toInt)
    (count : Nat) : sizeSum (parts.take count) ≤ sizeSum parts := by
  have others : 0 ≤ sizeSum (parts.drop count) :=
    size_sum_nonneg fun part member => natural part (mem_of_mem_drop member)
  have both : sizeSum parts = sizeSum (parts.take count) + sizeSum (parts.drop count) := by
    rw [sizeSum, sizeSum, sizeSum, ← sum_append, ← map_append, take_append_drop]
  omega

theorem part_step {part : Int64} {before rangeEnd : Int64}
    (natural : ∀ other ∈ part :: parts, 0 ≤ other.toInt) (low : -1 ≤ rangeEnd.toInt)
    (fits : rangeEnd.toInt + sizeSum (part :: parts) + 1 < 2 ^ 63) :
    ∃ start last, (∀ count, partBounds (count + 1) (part :: parts) (before, rangeEnd) =
        partBounds count parts (start, last)) ∧
      start.toInt = rangeEnd.toInt + 1 ∧ last.toInt = rangeEnd.toInt + part.toInt := by
  have first := natural part mem_cons_self
  have others : 0 ≤ sizeSum parts :=
    size_sum_nonneg fun other member => natural other (mem_cons_of_mem _ member)
  rw [size_sum_cons] at fits
  have isOne : (1 : Int64).toInt = 1 := rfl
  have isStart : (rangeEnd + 1).toInt = rangeEnd.toInt + (1 : Int64).toInt :=
    add_fits (by omega) (by omega)
  have isPast : (rangeEnd + 1 + part).toInt = (rangeEnd + 1).toInt + part.toInt :=
    add_fits (by omega) (by omega)
  have isLast : (rangeEnd + 1 + part - 1).toInt = (rangeEnd + 1 + part).toInt - (1 : Int64).toInt :=
    sub_fits (by omega) (by omega)
  refine ⟨rangeEnd + 1, rangeEnd + 1 + part - 1, fun count => ?_, by omega, by omega⟩
  rw [partBounds, checkedAdd, if_pos (by omega), bind_eq_bind, bind_some, checkedAdd,
    if_pos (by omega), bind_some, checkedSub, if_pos (by omega), bind_some]

theorem part_bounds {count : Nat} {parts : List Int64} {before rangeEnd : Int64}
    (natural : ∀ part ∈ parts, 0 ≤ part.toInt) (low : -1 ≤ rangeEnd.toInt)
    (fits : rangeEnd.toInt + sizeSum parts + 1 < 2 ^ 63) (present : count < parts.length) :
    ∃ start last, partBounds (count + 1) parts (before, rangeEnd) = some (start, last) ∧
      start.toInt = rangeEnd.toInt + sizeSum (parts.take count) + 1 ∧
      last.toInt = rangeEnd.toInt + sizeSum (parts.take (count + 1)) := by
  induction count generalizing parts before rangeEnd with
  | zero =>
    cases parts with
    | nil => cases present
    | cons part parts =>
      obtain ⟨start, last, stepped, isStart, isLast⟩ := part_step natural low fits
      exact ⟨start, last, stepped 0, by simpa [sizeSum] using isStart, by
        simpa [sizeSum, List.take] using isLast⟩
  | succ count ih =>
    cases parts with
    | nil => cases present
    | cons part parts =>
      obtain ⟨start, last, stepped, isStart, isLast⟩ := part_step natural low fits
      have first := natural part mem_cons_self
      rw [size_sum_cons] at fits
      obtain ⟨start', last', run, isStart', isLast'⟩ := ih
        (fun other member => natural other (mem_cons_of_mem _ member))
        (show -1 ≤ last.toInt by omega) (by omega) (Nat.lt_of_succ_lt_succ present)
      refine ⟨start', last', (stepped (count + 1)).trans run, ?_, ?_⟩
      · rw [take_succ_cons, size_sum_cons]
        omega
      · rw [take_succ_cons, size_sum_cons]
        omega

theorem part_spec {size : Int64} {count : Nat}
    (natural : ∀ part ∈ parts, 0 ≤ part.toInt) (total : sizeSum parts = size.toInt)
    (positive : 0 < size.toInt) (present : count < parts.length) :
    ∃ spec, HTTPRangeSpec.fromPartSizes size (count + 1) parts = some spec ∧
      spec.isSuffixLength = false ∧ spec.start.toInt = sizeSum (parts.take count) ∧
      spec.rangeEnd.toInt = sizeSum (parts.take (count + 1)) - 1 := by
  have bounds := int64_bounds size
  have before : (-1 : Int64).toInt = -1 := rfl
  obtain ⟨start, last, run, isStart, isLast⟩ := @part_bounds count parts 0 (-1) natural
    (le_of_eq before.symm) (by omega) present
  refine ⟨⟨false, start, last⟩, ?_, rfl, by simp only; omega, by simp only; omega⟩
  have nonzero : ¬ (size = 0 ∨ count + 1 = 0) := by
    rintro (rfl | empty)
    · exact absurd positive (by decide)
    · cases empty
  rw [HTTPRangeSpec.fromPartSizes, if_neg nonzero, run]
  rfl

theorem part_resolves_iff {size : Int64} {partNumber : Nat}
    (natural : ∀ part ∈ parts, 0 ≤ part.toInt) (total : sizeSum parts = size.toInt)
    (positive : 0 < size.toInt) (numbered : 1 ≤ partNumber) (present : partNumber ≤ parts.length) :
    PartResolves size partNumber parts ↔ 0 < sizeSum (parts.take partNumber) := by
  obtain ⟨count, rfl⟩ := Nat.exists_eq_add_of_le' numbered
  obtain ⟨spec, built, forward, isStart, isEnd⟩ := part_spec natural total positive present
  have low : 0 ≤ sizeSum (parts.take count) :=
    size_sum_nonneg fun part member => natural part (mem_of_mem_take member)
  have grows : sizeSum (parts.take count) ≤ sizeSum (parts.take (count + 1)) := by
    have cut := size_sum_take_le
      (fun part member => natural part (mem_of_mem_take member) :
        ∀ part ∈ parts.take (count + 1), 0 ≤ part.toInt) count
    rwa [take_take, Nat.min_eq_left (Nat.le_succ count)] at cut
  have high := size_sum_take_le natural (count + 1)
  unfold PartResolves
  rw [built, Nat.add_sub_cancel]
  simp only [Option.some.injEq, exists_eq_left']
  by_cases inside : spec.start.toInt < size.toInt
  · obtain ⟨offset, len, resolved⟩ :=
      forward_resolves forward (by omega) inside (show -1 ≤ spec.rangeEnd.toInt by omega)
    obtain ⟨_, _, _, isOffset, past⟩ := forward_resolved forward resolved
    rw [HTTPRangeSpec.pastEnd] at past
    rw [resolved]
    split_ifs at past <;> omega
  · cases resolved : spec.getOffsetLength size with
    | ok pair =>
      obtain ⟨_, starts, _⟩ := forward_resolved forward resolved
      exact absurd starts inside
    | error failure =>
      omega

/-- A specification resolves to what it selects unless its end lies more than one before its
start, and a part resolves to itself unless all the parts up to it are empty. Specifications are
arbitrary: they need not come from a parsed header. -/
theorem range_resolution (size : Int64) :
    (∀ spec : HTTPRangeSpec, spec.ResolvesInside size ↔ ¬ spec.Backward size) ∧
    ∀ (parts : List Int64) (partNumber : Nat), (∀ part ∈ parts, 0 ≤ part.toInt) →
      sizeSum parts = size.toInt → 0 < size.toInt → 1 ≤ partNumber → partNumber ≤ parts.length →
      (PartResolves size partNumber parts ↔ 0 < sizeSum (parts.take partNumber)) :=
  ⟨fun _ => resolves_inside_iff, fun _ _ => part_resolves_iff⟩

theorem sample_ranges_resolve :
    HTTPRangeSpec.ResolvesInside ⟨false, 5, 10⟩ 20 ∧ PartResolves 10 2 [0, 10] := by
  have sizes : ∀ part ∈ [(0 : Int64), 10], 0 ≤ part.toInt := by
    intro part member
    rcases List.mem_cons.1 member with rfl | last
    · decide
    · rw [List.mem_singleton.1 last]
      decide
  exact ⟨((range_resolution _).1 _).2 fun backward => absurd backward.2.2.1 (by decide),
    ((range_resolution _).2 _ _ sizes (by decide) (by decide) (by decide) (by decide)).2 (by decide)⟩

/-- Bytes 5 to 2 give a negative length, and an empty first part gives the whole object. -/
theorem ranges_misread :
    ¬ HTTPRangeSpec.ResolvesInside ⟨false, 5, 2⟩ 10 ∧ ¬ PartResolves 10 1 [0, 10] := by
  constructor
  · intro inside
    exact absurd (inside 5 (-2) (by decide)).1 (by decide)
  · rintro ⟨spec, built, resolved⟩
    obtain rfl : spec = ⟨false, 0, -1⟩ := Option.some.inj (built.symm.trans (by decide))
    exact absurd resolved.2 (by decide)

end Rustfs.StorageApi
