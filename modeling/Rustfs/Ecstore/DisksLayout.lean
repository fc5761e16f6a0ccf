import Rustfs.Library.Lists
import Rustfs.Library.Outcome
import Mathlib

/-!
# Sets of drives

`get_all_sets` of `ecstore/src/layout/disks_layout.rs` with the ellipses of `utils/src/string.rs`.
The symmetry of a set size is overwritten at every pattern, so the one that is looked at last
decides: the first ellipsis of the last argument. The texts of the errors and the parser for
arguments without ellipses outside of `get_all_sets` are left out.
-/

namespace Rustfs.Ecstore.DisksLayout

open List Library

abbrev Text := List Char

inductive LayoutError where
  | invalidEllipsisFormat
  | parseInt
  | rangeStartBiggerThanEnd
  | rangeSizeOverflow
  | rangeTooLarge
  | invalidArgument
  | belowMinimum (size : Nat)
  | belowSetWidth (size setDriveCount : Nat)
  | notDivisible (commonSize : Nat)
  | notSymmetric
  | invalidSetDriveCount (setDriveCount commonSize : Nat) (setCounts : List Nat)
  | incorrectNumber
  | duplicateEndpoint
  deriving DecidableEq

def isLowerHex (char : Char) : Bool := 'a' ≤ char && char ≤ 'f'

def isUpperHex (char : Char) : Bool := 'A' ≤ char && char ≤ 'F'

def isHexDigit (char : Char) : Bool := char.isDigit || isLowerHex char || isUpperHex char

/-- The two sides of a range in braces at the front of a text, and what follows it. -/
def bracedRange : Text → Option ((Text × Text) × Text)
  | '{' :: rest =>
    match rest.dropWhile isHexDigit with
    | '.' :: '.' :: '.' :: more =>
      match more.dropWhile isHexDigit with
      | '}' :: suffix => some ((rest.takeWhile isHexDigit, more.takeWhile isHexDigit), suffix)
      | _ => none
    | _ => none
  | _ => none

/-- The last range of a line with the texts around it: the first group is greedy. -/
def lastRange : Text → Option (Text × (Text × Text) × Text)
  | [] => none
  | char :: rest =>
    match lastRange rest with
    | some (front, range, suffix) => some (char :: front, range, suffix)
    | none => (bracedRange (char :: rest)).map fun (range, suffix) => ([], range, suffix)

/-- The captures of `ELLIPSES_RE`, whose dots stop at the end of a line. -/
def ellipsesCaptures (text : Text) : Option (Text × (Text × Text) × Text) :=
  (text.splitOn '\n').findSome? lastRange

def digitValue (char : Char) : Nat :=
  if char.isDigit then char.toNat - '0'.toNat
  else if isLowerHex char then char.toNat - 'a'.toNat + 10
  else char.toNat - 'A'.toNat + 10

def fromStrRadix (text : Text) (radix : Nat) : Except LayoutError Nat :=
  let value := text.foldl (fun value char => value * radix + digitValue char) 0
  if text = [] ∨ 2 ^ 64 ≤ value then .error .parseInt else .ok value

def padded (width : Nat) (digits : Text) : Text :=
  List.replicate (width - digits.length) '0' ++ digits

def maxEllipsesRangeSize : Nat := 10000

def parseEllipsesRange (range : Text × Text) : Except LayoutError (List Text) := do
  let isUpperHexRange := range.1.any isUpperHex || range.2.any isUpperHex
  let isHexRange := range.1.any isLowerHex || range.2.any isLowerHex || isUpperHexRange
  let radix := if isHexRange then 16 else 10
  let start ← fromStrRadix range.1 radix
  let last ← fromStrRadix range.2 radix
  if start > last then .error .rangeStartBiggerThanEnd
  else if 2 ^ 64 ≤ last - start + 1 then .error .rangeSizeOverflow
  else if last - start + 1 > maxEllipsesRangeSize then .error .rangeTooLarge
  else
    pure ((List.range' start (last - start + 1)).map fun i =>
      if isHexRange then
        let digits := padded range.2.length (Nat.toDigits 16 i)
        if isUpperHexRange then digits.map Char.toUpper else digits
      else if range.1.head? = some '0' ∧ range.1.length > 1 then
        padded range.2.length (Nat.toDigits 10 i)
      else Nat.toDigits 10 i)

structure Pattern where
  front : Text
  suffix : Text
  seq : List Text
  deriving DecidableEq

def Pattern.expand (pattern : Pattern) : List Text :=
  pattern.seq.map fun value => pattern.front ++ value ++ pattern.suffix

def Pattern.len (pattern : Pattern) : Nat := pattern.seq.length

abbrev ArgPattern := List Pattern

def argExpander : List (List Text) → List (List Text)
  | [] => []
  | [labels] => labels.map fun label => [label]
  | labels :: others => labels.flatMap fun label => (argExpander others).map (· ++ [label])

def ArgPattern.expand (pattern : ArgPattern) : List (List Text) := argExpander (pattern.map Pattern.expand)

def ArgPattern.totalSizes (pattern : ArgPattern) : Nat :=
  pattern.foldl (fun total pattern => total * pattern.seq.length) 1

/-- The loop of `find_ellipses_patterns`, from the last range of the text to its first: each turn
goes on with a shorter text. -/
def ellipsesPatterns : Nat → Text × (Text × Text) × Text → Except LayoutError ArgPattern
  | 0, _ => .ok []
  | turns + 1, (front, range, suffix) => do
    let seq ← parseEllipsesRange range
    match ellipsesCaptures front with
    | some parts => do
      let patterns ← ellipsesPatterns turns parts
      pure (⟨[], suffix, seq⟩ :: patterns)
    | none => pure [⟨front, suffix, seq⟩]

def hasBrace (text : Text) : Bool := text.contains '{' || text.contains '}'

def findEllipsesPatterns (arg : Text) : Except LayoutError ArgPattern :=
  match ellipsesCaptures arg with
  | none => .error .invalidEllipsisFormat
  | some parts => do
    let patterns ← ellipsesPatterns (arg.length + 1) parts
    if patterns.any fun pattern => hasBrace pattern.front || hasBrace pattern.suffix then
      .error .invalidEllipsisFormat
    else pure patterns

def maxErasureSetDriveCount : Nat := 16

def setSizes : List Nat := [2, 3, 4, 5, 6, 7, 8, 9, 10, 11, 12, 13, 14, 15, maxErasureSetDriveCount]

def getDivisibleSize (totalSizes : List Nat) : Nat :=
  totalSizes.tail.foldl Nat.gcd (totalSizes.headD 0)

def possibleSetCounts (setSize : Nat) : List Nat := setSizes.filter fun s => setSize % s = 0

def isValidSetSize (count : Nat) : Bool := 2 ≤ count && count ≤ maxErasureSetDriveCount

def commonSetDriveCount (divisibleSize : Nat) (setCounts : List Nat) : Nat :=
  if divisibleSize < setCounts.getLastD 0 then divisibleSize
  else
    (setCounts.foldl (fun (best : Nat × Nat) cnt =>
      if divisibleSize % cnt = 0 ∧ divisibleSize / cnt ≤ best.1 then (divisibleSize / cnt, cnt)
      else best) (divisibleSize / setCounts.headD 0, 0)).2

def symmetryAt (ss len : Nat) : Bool := if len > ss then len % ss = 0 else ss % len = 0

def symmetry (ss : Nat) (argPatterns : List ArgPattern) : Bool :=
  argPatterns.foldl (fun found pattern =>
    pattern.foldl (fun _ p => symmetryAt ss p.len) found) false

def possibleSetCountsWithSymmetry (setCounts : List Nat) (argPatterns : List ArgPattern) : List Nat :=
  ((setCounts.filter fun ss => symmetry ss argPatterns || argPatterns.isEmpty).dedup).insertionSort
    (· ≤ ·)

def sizeError (setDriveCount size : Nat) : Option LayoutError :=
  if size < 2 then some (.belowMinimum size)
  else if size < setDriveCount then some (.belowSetWidth size setDriveCount)
  else none

def selectSetSize (commonSize setDriveCount : Nat) (setCounts : List Nat) (argPatterns : List ArgPattern) :
    Except LayoutError Nat :=
  if setDriveCount > 0 then
    if setDriveCount ∈ setCounts then .ok setDriveCount
    else .error (.invalidSetDriveCount setDriveCount commonSize setCounts)
  else
    let setCounts := possibleSetCountsWithSymmetry setCounts argPatterns
    if setCounts = [] then .error .notSymmetric else .ok (commonSetDriveCount commonSize setCounts)

def getSetIndexes (totalSizes : List Nat) (setDriveCount : Nat) (argPatterns : List ArgPattern) :
    Except LayoutError (List (List Nat)) :=
  if totalSizes = [] then .error .invalidArgument
  else
    match totalSizes.findSome? (sizeError setDriveCount) with
    | some error => .error error
    | none =>
      let commonSize := getDivisibleSize totalSizes
      let setCounts := possibleSetCounts commonSize
      if setCounts = [] then .error (.notDivisible commonSize)
      else
        let setCounts := possibleSetCountsWithSymmetry setCounts argPatterns
        if setCounts = [] then .error .notSymmetric
        else do
          let setSize ← selectSetSize commonSize setDriveCount setCounts argPatterns
          if isValidSetSize setSize then
            .ok (totalSizes.map fun size => List.replicate (size / setSize) setSize)
          else .error .incorrectNumber

def expandedEndpoints (argPatterns : List ArgPattern) : List Text :=
  argPatterns.flatMap fun pattern => pattern.expand.map List.flatten

structure EndpointSet where
  endpoints : List Text
  setIndexes : List (List Nat)

def EndpointSet.fromVolumes (args : List Text) (setDriveCount : Nat) : Except LayoutError EndpointSet := do
  let argPatterns ← args.mapM findEllipsesPatterns
  let setIndexes ← getSetIndexes (argPatterns.map ArgPattern.totalSizes) setDriveCount argPatterns
  pure ⟨expandedEndpoints argPatterns, setIndexes⟩

def EndpointSet.get (set : EndpointSet) : List (List Text) :=
  set.setIndexes.flatten.splitLengths set.endpoints

def getAllSets (setDriveCount : Nat) (isEllipses : Bool) (args : List Text) :
    Except LayoutError (List (List Text)) := do
  let endpointSet ←
    if isEllipses then EndpointSet.fromVolumes args setDriveCount
    else do
      let setIndexes ←
        if args.length > 1 then getSetIndexes [args.length] setDriveCount [] else pure [[args.length]]
      pure ⟨args, setIndexes⟩
  if endpointSet.get.flatten.Nodup then .ok endpointSet.get else .error .duplicateEndpoint

variable {patterns : List ArgPattern} {s : Nat} {counts sizes : List Nat} {pattern : ArgPattern}

def Symmetric (ss len : Nat) : Prop := ss ∣ len ∨ len ∣ ss

theorem symmetry_at_iff {ss len : Nat} (positive : 0 < len) (large : 0 < ss) :
    symmetryAt ss len = true ↔ Symmetric ss len := by
  unfold symmetryAt Symmetric
  split
  · rename_i longer
    rw [decide_eq_true_eq, ← Nat.dvd_iff_mod_eq_zero]
    constructor
    · exact .inl
    · rintro (divides | multiple)
      · exact divides
      · exact absurd (Nat.le_of_dvd large multiple) (Nat.not_le_of_lt longer)
  · rename_i shorter
    rw [decide_eq_true_eq, ← Nat.dvd_iff_mod_eq_zero]
    constructor
    · exact .inr
    · rintro (divides | multiple)
      · obtain rfl := Nat.le_antisymm (Nat.le_of_dvd positive divides) (Nat.le_of_not_lt shorter)
        exact divides
      · exact multiple

def patternLengths (patterns : List ArgPattern) : List Nat :=
  patterns.flatMap fun pattern => pattern.map Pattern.len

theorem symmetry_eq (ss : Nat) (patterns : List ArgPattern) :
    symmetry ss patterns = ((patternLengths patterns).getLast?.map (symmetryAt ss)).getD false := by
  rw [← Lists.foldl_last, patternLengths, foldl_flatMap]
  simp only [foldl_map]
  rfl

theorem mem_possible_set_counts {size : Nat} :
    s ∈ possibleSetCounts size ↔ s ∈ setSizes ∧ s ∣ size := by
  unfold possibleSetCounts
  rw [mem_filter, decide_eq_true_eq, ← Nat.dvd_iff_mod_eq_zero]

theorem mem_symmetric_counts :
    s ∈ possibleSetCountsWithSymmetry counts patterns ↔
      s ∈ counts ∧ (symmetry s patterns || patterns.isEmpty) = true := by
  unfold possibleSetCountsWithSymmetry
  rw [mem_insertionSort, mem_dedup, mem_filter]

theorem dvd_foldl_gcd {t first : Nat} :
    t ∣ sizes.foldl Nat.gcd first ↔ t ∣ first ∧ ∀ size ∈ sizes, t ∣ size := by
  induction sizes generalizing first with
  | nil => simp
  | cons size sizes ih => rw [foldl_cons, ih, Nat.dvd_gcd_iff, forall_mem_cons, and_assoc]

theorem dvd_divisible_size {t : Nat} (someSize : sizes ≠ []) :
    t ∣ getDivisibleSize sizes ↔ ∀ size ∈ sizes, t ∣ size := by
  cases sizes with
  | nil => exact absurd rfl someSize
  | cons size sizes =>
    rw [getDivisibleSize, forall_mem_cons, ← dvd_foldl_gcd]
    rfl

theorem scan_last {size count chosen : Nat} (positive : 0 < count)
    (sorted : (count :: counts).Pairwise (· ≤ ·)) (divide : ∀ other ∈ counts, other ∣ size) :
    (counts.foldl (fun (best : Nat × Nat) cnt =>
      if size % cnt = 0 ∧ size / cnt ≤ best.1 then (size / cnt, cnt) else best)
        (size / count, chosen)).2 = counts.getLastD chosen := by
  induction counts generalizing count chosen with
  | nil => rfl
  | cons other counts ih =>
    rw [forall_mem_cons] at divide
    rw [pairwise_cons, forall_mem_cons] at sorted
    rw [foldl_cons, if_pos ⟨Nat.mod_eq_zero_of_dvd divide.1,
      Nat.div_le_div_left sorted.1.1 positive⟩, ih (positive.trans_le sorted.1.1) sorted.2 divide.2]
    exact getLastD_cons.symm

theorem common_set_drive_count_max {size : Nat} (someCount : counts ≠ [])
    (sorted : counts.Pairwise (· ≤ ·)) (divide : ∀ count ∈ counts, 0 < count ∧ count ∣ size)
    (positive : 0 < size) :
    commonSetDriveCount size counts ∈ counts ∧
      ∀ count ∈ counts, count ≤ commonSetDriveCount size counts := by
  have isLast : commonSetDriveCount size counts = counts.getLastD 0 := by
    unfold commonSetDriveCount
    rw [if_neg]
    · cases counts with
      | nil => exact absurd rfl someCount
      | cons first rest =>
        refine scan_last (divide first mem_cons_self).1 (sorted.cons ?_)
          fun other member => (divide other member).2
        intro other member
        rcases mem_cons.1 member with rfl | later
        · exact Nat.le_refl other
        · exact (pairwise_cons.1 sorted).1 other later
    · rw [getLastD_eq_getLast?, getLast?_eq_getLast_of_ne_nil someCount]
      exact Nat.not_lt_of_le (Nat.le_of_dvd positive (divide _ (getLast_mem someCount)).2)
  rw [isLast]
  rcases eq_nil_or_concat counts with rfl | ⟨front, last, rfl⟩
  · exact absurd rfl someCount
  · rw [concat_eq_append] at sorted ⊢
    rw [getLastD_concat]
    refine ⟨mem_append_right _ mem_cons_self, ?_⟩
    intro count member
    rcases mem_append.1 member with inFront | isLast
    · exact (pairwise_append.1 sorted).2.2 count inFront last mem_cons_self
    · exact Nat.le_of_eq (mem_singleton.1 isLast)

theorem expander_length (labels second : List Text) (others : List (List Text)) :
    (argExpander (labels :: second :: others)).length =
      labels.length * (argExpander (second :: others)).length := by
  have unfolded : argExpander (labels :: second :: others) =
      labels.flatMap fun label => (argExpander (second :: others)).map (· ++ [label]) := rfl
  rw [unfolded, length_flatMap]
  clear unfolded
  induction labels with
  | nil => rw [map_nil, sum_nil, length_nil, Nat.zero_mul]
  | cons label labels ih =>
    rw [map_cons, sum_cons, ih, length_map, length_cons, Nat.succ_mul, Nat.add_comm]

theorem total_sizes_eq (somePattern : pattern ≠ []) (total : Nat) :
    pattern.foldl (fun total pattern => total * pattern.seq.length) total =
      total * pattern.expand.length := by
  unfold ArgPattern.expand
  induction pattern generalizing total with
  | nil => exact absurd rfl somePattern
  | cons first rest ih =>
    cases rest with
    | nil => simp [argExpander, Pattern.expand]
    | cons second rest =>
      have length : first.expand.length = first.seq.length := length_map _
      rw [foldl_cons, ih (cons_ne_nil _ _), map_cons, map_cons, map_cons,
        expander_length, length, Nat.mul_assoc]

theorem endpoints_length (somePattern : ∀ pattern ∈ patterns, pattern ≠ []) :
    (expandedEndpoints patterns).length = (patterns.map ArgPattern.totalSizes).sum := by
  unfold expandedEndpoints
  rw [length_flatMap]
  congr 1
  apply map_congr_left
  intro pattern member
  rw [length_map, ArgPattern.totalSizes, total_sizes_eq (somePattern pattern member), Nat.one_mul]

theorem indexes_sum (divide : ∀ size ∈ sizes, s ∣ size) :
    (sizes.map fun size => List.replicate (size / s) s).flatten.sum = sizes.sum := by
  induction sizes with
  | nil => rfl
  | cons size sizes ih =>
    rw [forall_mem_cons] at divide
    rw [map_cons, flatten_cons, sum_append, ih divide.2, sum_replicate_nat,
      sum_cons, Nat.div_mul_cancel divide.1]

theorem parse_range_ne_nil {range : Text × Text} {seq : List Text}
    (parsed : parseEllipsesRange range = .ok seq) : seq ≠ [] := by
  obtain ⟨start, _, parsed⟩ := Outcome.bind_eq_ok.1 parsed
  obtain ⟨last, _, parsed⟩ := Outcome.bind_eq_ok.1 parsed
  split at parsed
  · cases parsed
  · split at parsed
    · cases parsed
    · split at parsed
      · cases parsed
      · cases parsed
        exact fun isNil => cons_ne_nil _ _ (map_eq_nil_iff.1 isNil)

theorem ellipses_patterns_len {turns : Nat} {parts : Text × (Text × Text) × Text}
    (found : ellipsesPatterns turns parts = .ok pattern) :
    (0 < turns → pattern ≠ []) ∧ ∀ part ∈ pattern, 0 < part.len := by
  induction turns generalizing parts pattern with
  | zero =>
    cases found
    exact ⟨nofun, nofun⟩
  | succ turns ih =>
    obtain ⟨seq, parsed, found⟩ := Outcome.bind_eq_ok.1 found
    have positive := length_pos_iff.2 (parse_range_ne_nil parsed)
    split at found
    · obtain ⟨rest, continued, found⟩ := Outcome.bind_eq_ok.1 found
      cases found
      exact ⟨fun _ => cons_ne_nil _ _, forall_mem_cons.2 ⟨positive, (ih continued).2⟩⟩
    · cases found
      exact ⟨fun _ => cons_ne_nil _ _, forall_mem_cons.2 ⟨positive, nofun⟩⟩

theorem find_patterns_len {arg : Text} (found : findEllipsesPatterns arg = .ok pattern) :
    pattern ≠ [] ∧ ∀ part ∈ pattern, 0 < part.len := by
  unfold findEllipsesPatterns at found
  split at found
  · cases found
  · obtain ⟨rest, continued, found⟩ := Outcome.bind_eq_ok.1 found
    split at found
    · cases found
    · cases found
      exact ⟨(ellipses_patterns_len continued).1 (Nat.succ_pos _), (ellipses_patterns_len continued).2⟩

/-- The sizes that the search considers: of the patterns, only the last one counts. -/
def Candidate (patterns : List ArgPattern) (s : Nat) : Prop :=
  s ∈ setSizes ∧ (∀ pattern ∈ patterns, s ∣ pattern.totalSizes) ∧
    ∀ len ∈ (patternLengths patterns).getLast?, Symmetric s len

theorem set_size_range (member : s ∈ setSizes) : 2 ≤ s ∧ s ≤ 16 := by
  have all : ∀ s ∈ setSizes, 2 ≤ s ∧ s ≤ 16 := by decide
  exact all s member

section

variable (somePatterns : patterns ≠ [])
  (each : ∀ pattern ∈ patterns, pattern ≠ [] ∧ ∀ part ∈ pattern, 0 < part.len) {setDriveCount : Nat}

include somePatterns each

theorem candidate_iff {s : Nat} :
    s ∈ possibleSetCountsWithSymmetry
        (possibleSetCounts (getDivisibleSize (patterns.map ArgPattern.totalSizes))) patterns ↔
      Candidate patterns s := by
  have noneEmpty : patterns.isEmpty = false := isEmpty_eq_false_iff.2 somePatterns
  rw [mem_symmetric_counts, mem_possible_set_counts, noneEmpty, Bool.or_false, symmetry_eq, and_assoc,
    dvd_divisible_size (mt map_eq_nil_iff.1 somePatterns), forall_mem_map]
  refine and_congr_right fun member => and_congr_right fun _ => ?_
  have large := (set_size_range member).1
  cases isLast : (patternLengths patterns).getLast? with
  | none =>
    obtain ⟨pattern, inside⟩ := exists_mem_of_ne_nil patterns somePatterns
    rw [getLast?_eq_none_iff] at isLast
    exact absurd (map_eq_nil_iff.1 (flatMap_eq_nil_iff.1 isLast pattern inside))
      (each pattern inside).1
  | some len =>
    obtain ⟨pattern, inside, isLen⟩ := mem_flatMap.1 (mem_of_getLast? isLast)
    obtain ⟨part, isPart, rfl⟩ := mem_map.1 isLen
    rw [Option.map_some, Option.getD_some,
      symmetry_at_iff ((each pattern inside).2 part isPart) (by omega)]
    simp

/-- The size for a configured count, or without one the largest candidate. It is described on the
patterns, not by the selection that the source runs. -/
def Selected (setDriveCount : Nat) (patterns : List ArgPattern) (s : Nat) : Prop :=
  if setDriveCount = 0 then Candidate patterns s ∧ ∀ other, Candidate patterns other → other ≤ s
  else s = setDriveCount

theorem select_set_size_eq (atLeast : ∀ pattern ∈ patterns, 2 ≤ pattern.totalSizes)
    (selected : selectSetSize (getDivisibleSize (patterns.map ArgPattern.totalSizes)) setDriveCount
      (possibleSetCountsWithSymmetry
        (possibleSetCounts (getDivisibleSize (patterns.map ArgPattern.totalSizes))) patterns)
      patterns = .ok s) : Candidate patterns s ∧ Selected setDriveCount patterns s := by
  have isCandidate := fun {s : Nat} => @candidate_iff patterns somePatterns each s
  unfold selectSetSize at selected
  unfold Selected
  split at selected
  · rename_i configured
    split at selected
    · rename_i member
      cases selected
      rw [if_neg (Nat.ne_of_gt configured)]
      exact ⟨isCandidate.1 member, rfl⟩
    · cases selected
  · dsimp only at selected
    split at selected
    · cases selected
    · rename_i someCount
      cases selected
      generalize isSize : getDivisibleSize (patterns.map ArgPattern.totalSizes) = size at *
      have isCount : ∀ {s}, s ∈ possibleSetCountsWithSymmetry
          (possibleSetCountsWithSymmetry (possibleSetCounts size) patterns) patterns ↔
            Candidate patterns s := by
        intro s
        rw [mem_symmetric_counts, ← isCandidate, mem_symmetric_counts, and_assoc, and_self]
      have divides : ∀ s, Candidate patterns s → s ∣ size := by
        intro s candidate
        rw [← isSize, dvd_divisible_size (mt map_eq_nil_iff.1 somePatterns), forall_mem_map]
        exact candidate.2.1
      have positive : 0 < size := by
        apply Nat.pos_of_ne_zero
        intro isZero
        obtain ⟨pattern, member⟩ := exists_mem_of_ne_nil patterns somePatterns
        have zero := (dvd_divisible_size (mt map_eq_nil_iff.1 somePatterns)).1
          (Nat.zero_dvd.2 (isSize.trans isZero)) _ (mem_map_of_mem member)
        have large := atLeast pattern member
        rw [Nat.zero_dvd.1 zero] at large
        cases large
      obtain ⟨member, largest⟩ := common_set_drive_count_max someCount
        (pairwise_insertionSort (· ≤ ·) _) (fun count member =>
          ⟨by have := (set_size_range (isCount.1 member).1).1; omega, divides count (isCount.1 member)⟩)
        positive
      rw [if_pos (by omega)]
      exact ⟨isCount.1 member, isCount.1 member, fun other candidate => largest other (isCount.2 candidate)⟩

theorem set_indexes_eq {indexes : List (List Nat)}
    (done : getSetIndexes (patterns.map ArgPattern.totalSizes) setDriveCount patterns = .ok indexes) :
    ∃ s, Candidate patterns s ∧ Selected setDriveCount patterns s ∧
      (∀ pattern ∈ patterns, 2 ≤ pattern.totalSizes) ∧
      indexes = (patterns.map ArgPattern.totalSizes).map fun size => List.replicate (size / s) s := by
  unfold getSetIndexes at done
  rw [if_neg (mt map_eq_nil_iff.1 somePatterns)] at done
  split at done
  · cases done
  · rename_i sized
    have atLeast : ∀ pattern ∈ patterns, 2 ≤ pattern.totalSizes := by
      intro pattern member
      have noError := findSome?_eq_none_iff.1 sized _ (mem_map_of_mem member)
      unfold sizeError at noError
      split at noError
      · cases noError
      · omega
    dsimp only at done
    split at done
    · cases done
    · split at done
      · cases done
      · obtain ⟨s, selected, done⟩ := Outcome.bind_eq_ok.1 done
        obtain ⟨candidate, isSelected⟩ := select_set_size_eq somePatterns each atLeast selected
        split at done
        · cases done
          exact ⟨s, candidate, isSelected, atLeast, rfl⟩
        · cases done

end

/-- The endpoints in order, in sets of one supported size that is symmetric with every ellipsis and,
unless a count is configured, the largest such size. -/
def SymmetricPartition (setDriveCount : Nat) (patterns : List ArgPattern) (sets : List (List Text)) :
    Prop :=
  sets.flatten = expandedEndpoints patterns ∧
    ∃ s, 2 ≤ s ∧ s ≤ 16 ∧ (∀ set ∈ sets, set.length = s) ∧
      (∀ len ∈ patternLengths patterns, Symmetric s len) ∧
      (setDriveCount = 0 → ∀ other ∈ setSizes, s < other →
        ¬((∀ pattern ∈ patterns, other ∣ pattern.totalSizes) ∧
          ∀ len ∈ patternLengths patterns, Symmetric other len))

theorem selected_unique {setDriveCount other : Nat} (selected : Selected setDriveCount patterns s)
    (isOther : Selected setDriveCount patterns other) : other = s := by
  unfold Selected at selected isOther
  split at selected
  · rw [if_pos ‹_›] at isOther
    exact Nat.le_antisymm (selected.2 other isOther.1) (isOther.2 s selected.1)
  · rw [if_neg ‹_›] at isOther
    exact isOther.trans selected.symm

theorem found_patterns_len {args : List Text} (found : args.mapM findEllipsesPatterns = .ok patterns) :
    ∀ pattern ∈ patterns, pattern ≠ [] ∧ ∀ part ∈ pattern, 0 < part.len := by
  have all := Outcome.map_m_eq_ok.1 found
  clear found
  induction all with
  | nil => exact nofun
  | cons first _ ih => exact forall_mem_cons.2 ⟨find_patterns_len first, ih⟩

/-- The sets are consecutive, of one size and symmetric over every pattern exactly when the size
that is selected divides the patterns symmetrically, not only the last one that was looked at. -/
theorem sets_partition_iff (args : List Text) (setDriveCount : Nat) (patterns : List ArgPattern)
    (found : args.mapM findEllipsesPatterns = .ok patterns) (sets : List (List Text))
    (done : getAllSets setDriveCount true args = .ok sets) :
    SymmetricPartition setDriveCount patterns sets ↔
      ∀ s, Selected setDriveCount patterns s → ∀ len ∈ patternLengths patterns, Symmetric s len := by
  unfold getAllSets EndpointSet.fromVolumes at done
  rw [if_pos rfl, found] at done
  obtain ⟨set, isSet, done⟩ := Outcome.bind_eq_ok.1 done
  obtain ⟨_, ⟨⟩, isSet⟩ := Outcome.bind_eq_ok.1 isSet
  obtain ⟨indexes, isIndexes, isSet⟩ := Outcome.bind_eq_ok.1 isSet
  cases isSet
  dsimp only at done
  split at done
  · cases done
    have each := found_patterns_len found
    have somePatterns : patterns ≠ [] := by
      rintro rfl
      cases isIndexes
    obtain ⟨s, candidate, selected, atLeast, rfl⟩ := set_indexes_eq somePatterns each isIndexes
    obtain ⟨large, small⟩ := set_size_range candidate.1
    have sums := indexes_sum (forall_mem_map.2 candidate.2.1)
    rw [← endpoints_length fun pattern member => (each pattern member).1] at sums
    have lengths := map_splitLengths_length _ _ sums.le
    constructor
    · rintro ⟨_, other, _, _, ofOther, symmetric, _⟩ chosen isChosen
      obtain ⟨pattern, member⟩ := exists_mem_of_ne_nil patterns somePatterns
      have inSizes : s ∈ ((patterns.map ArgPattern.totalSizes).map fun size =>
          List.replicate (size / s) s).flatten := by
        refine mem_flatten.2 ⟨_, mem_map_of_mem (mem_map_of_mem member), ?_⟩
        rw [mem_replicate]
        refine ⟨Nat.ne_of_gt (Nat.div_pos ?_ (by omega)), rfl⟩
        exact Nat.le_of_dvd (by have := atLeast pattern member; omega) (candidate.2.1 pattern member)
      rw [← lengths] at inSizes
      obtain ⟨set, isSet, rfl⟩ := mem_map.1 inSizes
      rw [selected_unique selected isChosen, ofOther set isSet]
      exact symmetric
    · intro symmetric
      refine ⟨flatten_splitLengths _ _ sums.ge, s, large, small, ?_, symmetric s selected, ?_⟩
      · intro set member
        have isLength := mem_map_of_mem (f := List.length) member
        rw [EndpointSet.get, lengths] at isLength
        obtain ⟨_, isSizes, inSizes⟩ := mem_flatten.1 isLength
        obtain ⟨size, _, rfl⟩ := mem_map.1 isSizes
        exact eq_of_mem_replicate inSizes
      · rintro rfl other supported larger ⟨divides, allSymmetric⟩
        have largest := selected.2 other ⟨supported, divides, ?_⟩
        · omega
        · intro len isLast
          exact allSymmetric len (mem_of_getLast? isLast)
  · cases done

def twoHostsOfFour : Text :=
  ['h', '{', '1', '.', '.', '.', '2', '}', '/', 'd', '{', '1', '.', '.', '.', '4', '}']

def hostPatterns : List ArgPattern :=
  [[⟨[], [], [['1'], ['2'], ['3'], ['4']]⟩, ⟨['h'], ['/', 'd'], [['1'], ['2']]⟩]]

/-- The eight drives of two hosts make one set, which goes with both ellipses. -/
theorem eight_drives_partition : [twoHostsOfFour].mapM findEllipsesPatterns = .ok hostPatterns ∧
    getAllSets 0 true [twoHostsOfFour] = .ok [expandedEndpoints hostPatterns] ∧
      SymmetricPartition 0 hostPatterns [expandedEndpoints hostPatterns] := by
  have selected : Selected 0 hostPatterns 8 := by
    refine ⟨⟨by decide, by decide, by unfold Symmetric; decide⟩, ?_⟩
    intro other candidate
    exact Nat.le_of_dvd (by decide) (candidate.2.1 _ mem_cons_self)
  refine ⟨by decide, by decide, (sets_partition_iff [twoHostsOfFour] 0 hostPatterns (by decide) _
    (by decide)).2 ?_⟩
  intro s isSelected
  rw [selected_unique selected isSelected]
  unfold Symmetric
  decide

def twoHostsOfNine : Text :=
  ['h', '{', '1', '.', '.', '.', '2', '}', '/', 'd', '{', '1', '.', '.', '.', '9', '}']

/-- Sets of six drives go with the two hosts, but not with nine drives each. -/
theorem nine_drives_in_sixes : ∃ patterns sets,
    [twoHostsOfNine].mapM findEllipsesPatterns = .ok patterns ∧
      getAllSets 0 true [twoHostsOfNine] = .ok sets ∧ ¬SymmetricPartition 0 patterns sets := by
  refine ⟨_, _, rfl, rfl, ?_⟩
  rintro ⟨_, s, _, _, lengths, symmetric, _⟩
  have isSix : 6 = s := lengths _ mem_cons_self
  subst isSix
  have nine : Symmetric 6 9 := symmetric 9 (by decide)
  revert nine
  unfold Symmetric
  decide

end Rustfs.Ecstore.DisksLayout
