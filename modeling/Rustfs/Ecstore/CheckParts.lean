import Rustfs.Ecstore.Bitrot
import Rustfs.Ecstore.Erasure
import Rustfs.Filemeta.FileInfo

/-!
# Lengths of part files

`LocalDisk::check_parts`: whether the part files of an object are there and long enough.
The length that is asked for is that of the shard without its digests, rounded up to an
even number for every block. It lies between the shard and the file that is written.
Building the paths and the checks on them come first in the source and are left out;
`lstat` is a parameter for each part.
-/

namespace Rustfs.Ecstore

open Bool Library Library.Blocks
open Filemeta (FileInfo ValidatedErasureLayout Runtime ObjectPartInfo checkedCalcShardSize)

/-- The code of a part, in the order of the numbers on the wire. -/
inductive CheckPart
  | unknown
  | success
  | diskNotFound
  | volumeNotFound
  | fileNotFound
  | fileCorrupt
  deriving DecidableEq

/-- What `lstat` says of a part file. Behind an error, whether the volume is found to be gone. -/
inductive PartStat
  | file (length : Nat)
  | directory
  | failed (error : DiskError) (volumeGone : Bool)

def checkPart (layout : ValidatedErasureLayout) (size : Nat) :
    PartStat → Except Filemeta.Error CheckPart
  | .directory => .ok .fileNotFound
  | .file length =>
    match layout.shardFileSize size with
    | none => .error .fileCorrupt
    | some expectedSize => .ok (if length < expectedSize then .fileCorrupt else .success)
  | .failed error volumeGone =>
    if error = .fileNotFound then .ok (if volumeGone then .volumeNotFound else .fileNotFound)
    else .ok .unknown

def checkParts (env : Runtime) (fi : FileInfo) (stat : ObjectPartInfo → PartStat) :
    Except Filemeta.Error (List CheckPart) :=
  match fi.validate env .requireErasure with
  | .error error => .error error
  | .ok none => .error .fileCorrupt
  | .ok (some layout) =>
    fi.parts.mapM fun part => checkPart layout part.size.toNat (stat part)

theorem checked_calc_shard_size_eq {blockSize dataShards size : Nat}
    (checked : checkedCalcShardSize blockSize dataShards = some size) :
    size = calcShardSizeLegacy blockSize dataShards := by
  unfold checkedCalcShardSize at checked
  split at checked
  · cases checked
  dsimp only at checked
  split at checked
  · exact (Option.some.inj checked).symm
  · cases checked

theorem Erasure.legacy_bounds (erasure : Erasure) (length : Nat) :
    erasure.perShardSize length ≤ calcShardSizeLegacy length erasure.dataShards ∧
      calcShardSizeLegacy length erasure.dataShards ≤ erasure.perShardSize length + 1 := by
  unfold perShardSize shardSizeFn
  cases erasure.usesLegacy with
  | true => exact ⟨Nat.le_refl _, Nat.le_succ _⟩
  | false =>
    change calcShardSize length erasure.dataShards ≤ _ ∧
      _ ≤ calcShardSize length erasure.dataShards + 1
    unfold calcShardSize calcShardSizeLegacy
    omega

theorem calc_shard_size_legacy_zero (dataShards : Nat) : calcShardSizeLegacy 0 dataShards = 0 := by
  simp [calcShardSizeLegacy]

/-- A layout that has been validated is that of the object, in the older rounding. -/
structure LayoutOf (erasure : Erasure) (layout : ValidatedErasureLayout) : Prop where
  data : layout.dataBlocks = erasure.dataShards
  block : layout.blockSize = erasure.blockSize
  shard : layout.shardSize = calcShardSizeLegacy erasure.blockSize erasure.dataShards

section Lengths

variable {erasure : Erasure} {layout : ValidatedErasureLayout} {size expected : Nat}

theorem expected_size_eq (layoutOf : LayoutOf erasure layout)
    (isExpected : layout.shardFileSize size = some expected) :
    expected = size / erasure.blockSize * calcShardSizeLegacy erasure.blockSize erasure.dataShards +
      calcShardSizeLegacy (size % erasure.blockSize) erasure.dataShards ∧ expected < 2 ^ 63 := by
  obtain ⟨lastShard, isLast, fits⟩ := Option.bind_eq_some_iff.1 isExpected
  rw [layoutOf.block, layoutOf.data] at isLast
  rw [layoutOf.block, layoutOf.shard, checked_calc_shard_size_eq isLast] at fits
  dsimp only at fits
  split at fits
  · rename_i small
    obtain rfl := Option.some.inj fits
    exact ⟨rfl, small⟩
  · cases fits

theorem shard_le_expected (layoutOf : LayoutOf erasure layout)
    (isExpected : layout.shardFileSize size = some expected) :
    erasure.shardFileBytes size ≤ expected := by
  have full := (erasure.legacy_bounds erasure.blockSize).1
  have last := (erasure.legacy_bounds (size % erasure.blockSize)).1
  rw [(expected_size_eq layoutOf isExpected).1, Erasure.shardFileBytes, erasure.shard_size_eq]
  exact Nat.add_le_add (Nat.mul_le_mul_left _ full) last

theorem digest_count (erasure : Erasure) (size : Nat) :
    size / erasure.blockSize + (if size % erasure.blockSize = 0 then 0 else 1) ≤
      blockCount erasure.shardSize (erasure.shardFileBytes size) := by
  have shardPositive : 0 < erasure.shardSize := by
    have covers := erasure.length_le_data_shards erasure.blockSize
    rw [erasure.shard_size_eq]
    by_contra none
    rw [Nat.eq_zero_of_not_pos none, Nat.mul_zero] at covers
    exact Nat.not_lt_of_le covers erasure.blockPositive
  split
  · cases full : size / erasure.blockSize with
    | zero => exact Nat.zero_le _
    | succ count =>
      apply Nat.succ_le_of_lt
      rw [lt_block_count_iff shardPositive, Erasure.shardFileBytes, full, Nat.succ_mul]
      omega
  · rename_i rest
    have covers := erasure.length_le_data_shards (size % erasure.blockSize)
    have lastPositive : 0 < erasure.perShardSize (size % erasure.blockSize) := by
      by_contra none
      rw [Nat.eq_zero_of_not_pos none, Nat.mul_zero] at covers
      exact rest (Nat.le_zero.1 covers)
    apply Nat.succ_le_of_lt
    rw [lt_block_count_iff shardPositive, Erasure.shardFileBytes]
    omega

/-- The file is as long as what is asked for: a digest is longer than what the rounding adds to
its block. -/
theorem expected_le_written (layoutOf : LayoutOf erasure layout)
    (isExpected : layout.shardFileSize size = some expected) :
    expected ≤ bitrotShardFileSize (erasure.shardFileBytes size) erasure.shardSize
      .highwayHash256S := by
  have full := (erasure.legacy_bounds erasure.blockSize).2
  have last := (erasure.legacy_bounds (size % erasure.blockSize)).2
  have digests := digest_count erasure size
  have streaming : HashAlgorithm.highwayHash256S.streaming := .inl rfl
  rw [bitrot_shard_file_size_streaming streaming, (expected_size_eq layoutOf isExpected).1]
  have rounded : size / erasure.blockSize *
      calcShardSizeLegacy erasure.blockSize erasure.dataShards ≤
        size / erasure.blockSize * erasure.shardSize + size / erasure.blockSize := by
    rw [erasure.shard_size_eq, ← Nat.mul_succ]
    exact Nat.mul_le_mul_left _ full
  have lastRounded : calcShardSizeLegacy (size % erasure.blockSize) erasure.dataShards ≤
      erasure.perShardSize (size % erasure.blockSize) +
        (if size % erasure.blockSize = 0 then 0 else 1) := by
    split
    · rename_i even
      rw [even, calc_shard_size_legacy_zero]
      exact Nat.zero_le _
    · exact last
  have digestSize : HashAlgorithm.highwayHash256S.size = 32 := rfl
  rw [digestSize]
  unfold Erasure.shardFileBytes at digests ⊢
  omega

end Lengths

def CoderOf (fi : FileInfo) (erasure : Erasure) : Prop :=
  erasure.dataShards = fi.erasure.dataBlocks.toNat ∧
    erasure.parityShards = fi.erasure.parityBlocks.toNat ∧
    erasure.blockSize = fi.erasure.blockSize.toNat ∧ erasure.usesLegacy = fi.usesLegacyChecksum

section Validated

variable {env : Runtime} {fi : FileInfo} {layout : ValidatedErasureLayout} {erasure : Erasure}

theorem validate_eq_ok (valid : fi.validate env .requireErasure = .ok (some layout)) :
    fi.validateErasureGeometry = .ok layout ∧
      fi.validateCollectionContents (some layout) = .ok () := by
  obtain ⟨_, _, valid⟩ := Outcome.bind_eq_ok.1 valid
  obtain ⟨_, _, valid⟩ := Outcome.bind_eq_ok.1 valid
  obtain ⟨found, isFound, valid⟩ := Outcome.bind_eq_ok.1 valid
  obtain ⟨_, contents, same⟩ := Outcome.bind_eq_ok.1 valid
  obtain ⟨geometry, isGeometry, rfl⟩ := Outcome.map_eq_ok.1 isFound
  cases same
  exact ⟨isGeometry, contents⟩

theorem layout_of_geometry (geometry : fi.validateErasureGeometry = .ok layout)
    (coder : CoderOf fi erasure) : LayoutOf erasure layout := by
  obtain ⟨data, _, block, _⟩ := coder
  unfold FileInfo.validateErasureGeometry FileInfo.validateErasureGeometryWithIndex at geometry
  dsimp only at geometry
  split at geometry
  · cases geometry
  split at geometry
  · cases geometry
  rename_i shardSize isShard
  split at geometry
  · cases geometry
  · obtain rfl := Except.ok.inj geometry
    refine ⟨data.symm, block.symm, ?_⟩
    rw [data, block]
    exact checked_calc_shard_size_eq isShard

theorem part_sizes_ok (contents : fi.validateCollectionContents (some layout) = .ok ())
    {part : ObjectPartInfo} (member : part ∈ fi.parts) :
    part.size.toNat < 2 ^ 63 ∧ ∃ expected, layout.shardFileSize part.size.toNat = some expected := by
  unfold FileInfo.validateCollectionContents at contents
  dsimp only at contents
  split at contents
  · cases contents
  rename_i sound
  have sizes : fi.parts.all (FileInfo.partSizesOk layout) = true := by
    by_contra bad
    apply sound
    simp only [or_eq_true, not_eq_true', eq_false_iff]
    exact .inl (.inl (.inr bad))
  have ok := List.all_eq_true.1 sizes part member
  unfold FileInfo.partSizesOk at ok
  rw [and_eq_true, and_eq_true, decide_eq_true_eq] at ok
  exact ⟨ok.1.1, Option.isSome_iff_exists.1 ok.1.2⟩

theorem check_part_ok {size expected : Nat} (isExpected : layout.shardFileSize size = some expected)
    (stat : PartStat) : ∃ code, checkPart layout size stat = .ok code := by
  cases stat with
  | file length =>
    unfold checkPart
    rw [isExpected]
    exact ⟨_, rfl⟩
  | directory => exact ⟨_, rfl⟩
  | failed error volumeGone =>
    by_cases missing : error = .fileNotFound
    · exact ⟨_, if_pos missing⟩
    · exact ⟨_, if_neg missing⟩

theorem check_parts_ok (valid : fi.validate env .requireErasure = .ok (some layout))
    (stat : ObjectPartInfo → PartStat) :
    ∃ results, checkParts env fi stat = .ok results ∧
      ∀ (idx : Nat) (part : ObjectPartInfo), fi.parts[idx]? = some part →
        ∃ code, results[idx]? = some code ∧
        checkPart layout part.size.toNat (stat part) = .ok code := by
  have contents := (validate_eq_ok valid).2
  have each : ∀ parts : List ObjectPartInfo, (∀ part ∈ parts, part ∈ fi.parts) →
      ∃ results, parts.mapM (fun part => checkPart layout part.size.toNat (stat part)) = .ok results := by
    intro parts inside
    induction parts with
    | nil => exact ⟨[], rfl⟩
    | cons part parts ih =>
      obtain ⟨member, others⟩ := List.forall_mem_cons.1 inside
      obtain ⟨_, expected, isExpected⟩ := part_sizes_ok contents member
      obtain ⟨code, checked⟩ := check_part_ok isExpected (stat part)
      obtain ⟨results, later⟩ := ih others
      refine ⟨code :: results, ?_⟩
      rw [List.mapM_cons, checked, later]
      rfl
  obtain ⟨results, done⟩ := each fi.parts fun _ member => member
  refine ⟨results, ?_, fun idx part here => Outcome.map_m_get done here⟩
  unfold checkParts
  rw [valid]
  exact done

end Validated

/-- The file that is written passes, and the files that do not pass are those shorter than a
length between the shard and that file. A written file that lost fewer bytes than that leaves goes
unnoticed. -/
theorem part_length_check (env : Runtime) (fi : FileInfo) (layout : ValidatedErasureLayout)
    (valid : fi.validate env .requireErasure = .ok (some layout)) (erasure : Erasure)
    (coder : CoderOf fi erasure) (idx : Nat) (part : ObjectPartInfo)
    (here : fi.parts[idx]? = some part) (stat : ObjectPartInfo → PartStat) (length : Nat)
    (isFile : stat part = .file length) :
    let shard := asUsize (erasure.shardFileSize (asI64 part.size.toNat))
    let written := bitrotShardFileSize shard erasure.shardSize .highwayHash256S
    ∃ results expected, checkParts env fi stat = .ok results ∧
      layout.shardFileSize part.size.toNat = some expected ∧ shard ≤ expected ∧ expected ≤ written ∧
      results[idx]? = some (if length < expected then .fileCorrupt else .success) ∧
      (length = written → results[idx]? = some .success) ∧
      (length < shard → results[idx]? = some .fileCorrupt) := by
  obtain ⟨geometry, contents⟩ := validate_eq_ok valid
  have layoutOf := layout_of_geometry geometry coder
  obtain ⟨small, expected, isExpected⟩ := part_sizes_ok contents (List.mem_of_getElem? here)
  have atMost := shard_le_expected layoutOf isExpected
  have bounded := (expected_size_eq layoutOf isExpected).2
  intro shard written
  have isShard : shard = erasure.shardFileBytes part.size.toNat := by
    change asUsize (erasure.shardFileSize (asI64 part.size.toNat)) = _
    rw [as_i64_of_lt small, erasure.shard_file_size_eq small,
      as_usize_as_i64 (by omega)]
  have isWritten : expected ≤ written := by
    change expected ≤ bitrotShardFileSize shard erasure.shardSize .highwayHash256S
    rw [isShard]
    exact expected_le_written layoutOf isExpected
  obtain ⟨results, checked, each⟩ := check_parts_ok valid stat
  obtain ⟨code, isCode, judged⟩ := each idx part here
  have isJudged : results[idx]? = some (if length < expected then .fileCorrupt else .success) := by
    unfold checkPart at judged
    rw [isFile, isExpected] at judged
    rw [isCode, ← Except.ok.inj judged]
  refine ⟨results, expected, checked, isExpected, isShard ▸ atMost, isWritten, isJudged, ?_, ?_⟩
  · intro isLength
    rw [isJudged, if_neg (Nat.not_lt_of_le (isLength ▸ isWritten))]
  · intro short
    rw [isJudged, if_pos (Nat.lt_of_lt_of_le short (isShard ▸ atMost))]

/-- Five bytes in blocks of four, over two data shards. -/
def partInfo : FileInfo :=
  { FileInfo.default with
    size := 5
    parts := [{ ObjectPartInfo.default with number := 1, size := 5, actualSize := 5 }]
    erasure := { Filemeta.ErasureInfo.default with
      dataBlocks := 2, parityBlocks := 2, blockSize := 4, index := 1, distribution := [1, 2, 3, 4] } }

def partCoder : Erasure := ⟨2, 2, 4, false, Nat.succ_pos 1, Nat.succ_pos 3⟩

/-- The last byte of the file is missing, and the part passes. -/
theorem truncated_part_passes :
    partInfo.validate .sample .requireErasure = .ok (some ⟨2, 4, 2⟩) ∧ CoderOf partInfo partCoder ∧
      bitrotShardFileSize (asUsize (partCoder.shardFileSize (asI64 5))) partCoder.shardSize
        .highwayHash256S = 67 ∧
      checkParts .sample partInfo (fun _ => .file 66) = .ok [.success] := by
  refine ⟨rfl, ⟨rfl, rfl, rfl, rfl⟩, ?_, rfl⟩
  decide

/-- A file of two bytes is shorter than the shard. -/
theorem short_part_is_corrupt :
    partInfo.validate .sample .requireErasure = .ok (some ⟨2, 4, 2⟩) ∧
      ∃ results expected, checkParts .sample partInfo (fun _ => .file 2) = .ok results ∧
        ValidatedErasureLayout.shardFileSize ⟨2, 4, 2⟩ 5 = some expected ∧
        results[0]? = some .fileCorrupt := by
  have shorter : 2 < asUsize (partCoder.shardFileSize (asI64 5)) := by decide
  obtain ⟨results, expected, checked, isExpected, _, _, _, _, rejected⟩ :=
    part_length_check .sample partInfo ⟨2, 4, 2⟩ rfl partCoder ⟨rfl, rfl, rfl, rfl⟩ 0 _ rfl
      (fun _ => .file 2) 2 rfl
  exact ⟨rfl, results, expected, checked, isExpected, rejected shorter⟩

end Rustfs.Ecstore
