import Rustfs.Ecstore.DiskError
import Rustfs.Library.Blocks
import Rustfs.Library.ByteReader
import Rustfs.Library.MachineInt
import Rustfs.Library.Outcome
import Mathlib.Tactic.IntervalCases

/-!
# Erasure geometry

How an object is cut into blocks, each block into shards of one length, and how the
length of a shard file and the end of a read window follow from that. Two roundings are
in use, the current one and the one of the older format, which makes every shard length
even. The prefetch of stripes is left out, since the serial loop hands on the same
bytes; so is the error that a full body may be returned with when parity outnumbers
data.
-/

namespace Rustfs.Ecstore

open List Library Library.Blocks
open Library.ByteReader (Bytes)

def calcShardSize (blockSize dataShards : Nat) : Nat := blockSize ⌈/⌉ dataShards

/-- Clearing the lowest bit (`& !1`) rounds down to an even number. -/
def calcShardSizeLegacy (blockSize dataShards : Nat) : Nat := (blockSize ⌈/⌉ dataShards + 1) / 2 * 2

/-- `Erasure`, as `try_new_with_options` builds it: neither dimension is zero. -/
structure Erasure where
  dataShards : Nat
  parityShards : Nat
  blockSize : Nat
  usesLegacy : Bool
  dataPositive : 0 < dataShards
  blockPositive : 0 < blockSize

namespace Erasure

def totalShardCount (erasure : Erasure) : Nat := erasure.dataShards + erasure.parityShards

def shardSizeFn (erasure : Erasure) : Nat → Nat → Nat :=
  if erasure.usesLegacy then calcShardSizeLegacy else calcShardSize

def shardSize (erasure : Erasure) : Nat :=
  if erasure.usesLegacy then calcShardSizeLegacy erasure.blockSize erasure.dataShards
  else calcShardSize erasure.blockSize erasure.dataShards

def shardFileSize (erasure : Erasure) (totalLength : Int) : Int :=
  if totalLength = 0 then 0
  else if totalLength < 0 then totalLength
  else
    let total := asUsize totalLength
    let numShards := total / erasure.blockSize
    let lastBlockSize := total % erasure.blockSize
    let lastShardSize := erasure.shardSizeFn lastBlockSize erasure.dataShards
    asI64 (numShards * erasure.shardSize + lastShardSize)

def shardFileOffset (erasure : Erasure) (startOffset length totalLength : Nat) : Nat :=
  let shardFileSize := asUsize (erasure.shardFileSize (asI64 totalLength))
  let endShard := (startOffset + length) / erasure.blockSize
  let tillOffset := endShard * erasure.shardSize + erasure.shardSize
  if shardFileSize < tillOffset then shardFileSize else tillOffset

/-- The shard length of a block of `length` bytes, as the encoder computes it. -/
def perShardSize (erasure : Erasure) (length : Nat) : Nat :=
  erasure.shardSizeFn length erasure.dataShards

end Erasure

/-- The Reed-Solomon coder: the parity shards it computes for the data shards. -/
structure ReedSolomon where
  recovery : Nat → Nat → List Bytes → Except DiskError (List Bytes)

/-- `BytesMut::resize` with zeros. -/
def resize (bytes : Bytes) (length : Nat) : Bytes :=
  bytes.take length ++ List.replicate (length - bytes.length) 0

/-- The slices of one encoded block, with the length they share. -/
structure EncodedBlock where
  shards : List Bytes
  shardSize : Nat

namespace EncodedBlock

def empty : EncodedBlock := ⟨[], 0⟩

def intoShards (block : EncodedBlock) (shardCount : Nat) : List Bytes :=
  if block.shardSize = 0 then List.replicate shardCount [] else block.shards.take shardCount

end EncodedBlock

variable {rs : ReedSolomon} {erasure : Erasure} {data : Bytes} {index : Nat}

namespace Erasure

/-- The encoder overwrites the slices behind the data shards. -/
def encodeSlices (rs : ReedSolomon) (erasure : Erasure) (slices : List Bytes) :
    Except DiskError (List Bytes) :=
  if 0 < erasure.parityShards then
    (rs.recovery erasure.dataShards erasure.parityShards (slices.take erasure.dataShards)).map
      fun parity => slices.take erasure.dataShards ++ parity
  else .ok slices

def encodeBuffer (rs : ReedSolomon) (erasure : Erasure) (dataBuffer : Bytes) (dataLen : Nat) :
    Except DiskError EncodedBlock :=
  let perShardSize := erasure.perShardSize dataLen
  if perShardSize = 0 then .ok .empty
  else
    let needTotalSize := perShardSize * erasure.totalShardCount
    let padded := resize (dataBuffer.take dataLen) needTotalSize
    (encodeSlices rs erasure (chunksExact perShardSize padded)).map fun shards =>
      ⟨shards, perShardSize⟩

def encodeData (rs : ReedSolomon) (erasure : Erasure) (data : Bytes) :
    Except DiskError (List Bytes) :=
  (encodeBuffer rs erasure data data.length).map fun block =>
    block.intoShards erasure.totalShardCount

theorem shard_size_eq (erasure : Erasure) :
    erasure.shardSize = erasure.perShardSize erasure.blockSize := by
  unfold shardSize perShardSize shardSizeFn
  cases erasure.usesLegacy <;> rfl

@[simp] theorem per_shard_size_zero (erasure : Erasure) : erasure.perShardSize 0 = 0 := by
  unfold perShardSize shardSizeFn
  cases erasure.usesLegacy <;> simp [calcShardSize, calcShardSizeLegacy]

theorem ceil_le_per_shard_size (erasure : Erasure) (length : Nat) :
    length ⌈/⌉ erasure.dataShards ≤ erasure.perShardSize length := by
  unfold perShardSize shardSizeFn
  cases erasure.usesLegacy with
  | false => exact le_rfl
  | true =>
    simp only [if_true, calcShardSizeLegacy]
    omega

theorem length_le_data_shards (erasure : Erasure) (length : Nat) :
    length ≤ erasure.dataShards * erasure.perShardSize length :=
  (ceilDiv_le_iff_le_mul erasure.dataPositive).1 (erasure.ceil_le_per_shard_size length)

theorem per_shard_size_mono (erasure : Erasure) {shorter longer : Nat} (le : shorter ≤ longer) :
    erasure.perShardSize shorter ≤ erasure.perShardSize longer := by
  have rounded : shorter ⌈/⌉ erasure.dataShards ≤ longer ⌈/⌉ erasure.dataShards := by
    rw [ceilDiv_le_iff_le_mul erasure.dataPositive]
    exact le_trans le ((ceilDiv_le_iff_le_mul erasure.dataPositive).1 le_rfl)
  unfold perShardSize shardSizeFn
  cases erasure.usesLegacy with
  | false => exact rounded
  | true =>
    simp only [if_true, calcShardSizeLegacy]
    omega

theorem length_resize (bytes : Bytes) (length : Nat) : (resize bytes length).length = length := by
  rw [resize, length_append, length_take, length_replicate]
  omega

theorem take_resize {bytes : Bytes} {shorter longer : Nat} (holds : bytes.length ≤ shorter)
    (le : shorter ≤ longer) :
    (resize bytes longer).take shorter = bytes ++ List.replicate (shorter - bytes.length) 0 := by
  rw [resize, take_of_length_le (le_trans holds le), take_append,
    take_of_length_le holds, take_replicate]
  congr 2
  omega

theorem take_encode_slices {slices shards : List Bytes}
    (encoded : encodeSlices rs erasure slices = .ok shards)
    (enough : erasure.dataShards ≤ slices.length) :
    shards.take erasure.dataShards = slices.take erasure.dataShards := by
  unfold encodeSlices at encoded
  split at encoded
  · obtain ⟨parity, _, same⟩ := Outcome.map_eq_ok.1 encoded
    rw [← same, take_append_of_le_length, take_take, min_self]
    rw [length_take]
    omega
  · cases encoded
    rfl

theorem encode_data_shards
    {shards : List Bytes} (encoded : encodeData rs erasure data = .ok shards) :
    (shards.take erasure.dataShards).flatten =
        data ++ List.replicate
          (erasure.dataShards * erasure.perShardSize data.length - data.length) 0 ∧
      (shards.take erasure.dataShards).length = erasure.dataShards := by
  have within := erasure.length_le_data_shards data.length
  have fewer : erasure.dataShards ≤ erasure.totalShardCount := Nat.le_add_right _ _
  obtain ⟨block, buffered, same⟩ := Outcome.map_eq_ok.1 encoded
  subst same
  unfold encodeBuffer at buffered
  by_cases zero : erasure.perShardSize data.length = 0
  · simp only [zero, if_true] at buffered
    cases buffered
    rw [zero, Nat.mul_zero] at within ⊢
    have vacant : data = [] := eq_nil_of_length_eq_zero (Nat.le_zero.1 within)
    simp [EncodedBlock.intoShards, EncodedBlock.empty, vacant, take_replicate, min_eq_left fewer]
  · simp only [zero, if_false] at buffered
    obtain ⟨slices, sliced, same⟩ := Outcome.map_eq_ok.1 buffered
    subst same
    have count : (chunksExact (erasure.perShardSize data.length)
        (resize (data.take data.length)
          (erasure.perShardSize data.length * erasure.totalShardCount))).length =
        erasure.totalShardCount := by
      rw [chunksExact, length_map, length_range, length_resize]
      exact Nat.mul_div_cancel_left _ (Nat.pos_of_ne_zero zero)
    have kept := take_encode_slices sliced (by rw [count]; exact fewer)
    rw [take_length] at kept count
    simp only [EncodedBlock.intoShards, zero, if_false]
    rw [take_take, min_eq_left fewer, kept]
    constructor
    · rw [chunksExact, ← map_take, take_range, length_resize,
        Nat.mul_div_cancel_left _ (Nat.pos_of_ne_zero zero), min_eq_left fewer,
        flatten_first_blocks, take_resize within]
      rw [Nat.mul_comm]
      exact Nat.mul_le_mul_left _ fewer
    · rw [length_take, count, min_eq_left fewer]

/-- Shard bytes of the first `count` blocks of an object of `total` bytes. -/
def shardBytes (erasure : Erasure) (total count : Nat) : Nat :=
  ((List.range count).map fun index =>
    erasure.perShardSize (blockLength erasure.blockSize total index)).sum

/-- The length of the shard file before the conversion to `i64`. -/
def shardFileBytes (erasure : Erasure) (total : Nat) : Nat :=
  total / erasure.blockSize * erasure.shardSize + erasure.perShardSize (total % erasure.blockSize)

theorem shard_bytes_all (erasure : Erasure) (total : Nat) :
    erasure.shardBytes total (blockCount erasure.blockSize total) = erasure.shardFileBytes total := by
  rw [shardBytes, sum_blocks erasure.blockPositive _ erasure.per_shard_size_zero]
  rw [shardFileBytes, shard_size_eq]

theorem shard_bytes_mono (erasure : Erasure) (total : Nat) {fewer more : Nat} (le : fewer ≤ more) :
    erasure.shardBytes total fewer ≤ erasure.shardBytes total more := by
  obtain ⟨extra, rfl⟩ := Nat.exists_eq_add_of_le le
  unfold shardBytes
  rw [range_add, map_append, sum_append]
  exact Nat.le_add_right _ _

theorem shard_bytes_le (erasure : Erasure) (total count : Nat) :
    erasure.shardBytes total count ≤ count * erasure.shardSize := by
  induction count with
  | zero => simp [shardBytes]
  | succ count induction =>
    have last : erasure.perShardSize (blockLength erasure.blockSize total count) ≤
        erasure.shardSize := by
      rw [shard_size_eq]
      exact erasure.per_shard_size_mono (Nat.min_le_left _ _)
    unfold shardBytes at induction ⊢
    rw [range_succ, map_append, sum_append, Nat.succ_mul]
    simp only [map_cons, map_nil, sum_cons, sum_nil]
    omega

theorem total_le_shard_file_bytes (erasure : Erasure) (total : Nat) :
    total ≤ erasure.dataShards * erasure.shardFileBytes total := by
  have full := erasure.length_le_data_shards erasure.blockSize
  have last := erasure.length_le_data_shards (total % erasure.blockSize)
  calc total = total / erasure.blockSize * erasure.blockSize + total % erasure.blockSize :=
        (Nat.div_add_mod' total erasure.blockSize).symm
    _ ≤ total / erasure.blockSize * (erasure.dataShards * erasure.perShardSize erasure.blockSize) +
          erasure.dataShards * erasure.perShardSize (total % erasure.blockSize) :=
        Nat.add_le_add (Nat.mul_le_mul_left _ full) last
    _ = erasure.dataShards * erasure.shardFileBytes total := by
        rw [shardFileBytes, shard_size_eq, Nat.mul_add, Nat.mul_left_comm]

theorem shard_file_size_eq (erasure : Erasure) {total : Nat} (small : total < 2 ^ 63) :
    erasure.shardFileSize (total : Int) = asI64 (erasure.shardFileBytes total) := by
  have whole : asUsize (total : Int) = total := as_usize_of_lt (by omega)
  by_cases zero : total = 0
  · subst zero
    have empty : erasure.shardFileBytes 0 = 0 := by simp [shardFileBytes]
    rw [empty, as_i64_of_lt (by omega)]
    simp only [shardFileSize, Nat.cast_zero, if_true]
  · have notZero : ¬ (total : Int) = 0 := by omega
    have notNegative : ¬ (total : Int) < 0 := by omega
    simp only [shardFileSize, notZero, notNegative, if_false, whole, shardFileBytes, perShardSize]

theorem shard_bytes_le_till_offset (erasure : Erasure) (total endOffset : Nat) :
    erasure.shardBytes total ((endOffset - 1) / erasure.blockSize + 1) ≤
      endOffset / erasure.blockSize * erasure.shardSize + erasure.shardSize := by
  have order : (endOffset - 1) / erasure.blockSize ≤ endOffset / erasure.blockSize :=
    Nat.div_le_div_right (Nat.sub_le _ _)
  calc erasure.shardBytes total ((endOffset - 1) / erasure.blockSize + 1)
      ≤ ((endOffset - 1) / erasure.blockSize + 1) * erasure.shardSize :=
        erasure.shard_bytes_le total _
    _ ≤ (endOffset / erasure.blockSize + 1) * erasure.shardSize :=
        Nat.mul_le_mul_right _ (Nat.succ_le_succ order)
    _ = endOffset / erasure.blockSize * erasure.shardSize + erasure.shardSize := Nat.succ_mul _ _

theorem last_stripe_lt_block_count (erasure : Erasure) {total endOffset : Nat}
    (positive : 0 < endOffset) (inside : endOffset ≤ total) :
    (endOffset - 1) / erasure.blockSize + 1 ≤ blockCount erasure.blockSize total := by
  apply Nat.succ_le_of_lt
  rw [lt_block_count_iff erasure.blockPositive]
  have start := Nat.div_mul_le_self (endOffset - 1) erasure.blockSize
  omega

theorem shard_file_offset_eq (erasure : Erasure) {total : Nat} (small : total < 2 ^ 63)
    (fits : erasure.shardFileBytes total < 2 ^ 63) (offset length : Nat) :
    erasure.shardFileOffset offset length total =
      min (erasure.shardFileBytes total)
        ((offset + length) / erasure.blockSize * erasure.shardSize + erasure.shardSize) := by
  have wide : erasure.shardFileBytes total < 2 ^ 64 := by omega
  unfold shardFileOffset
  rw [as_i64_of_lt small, erasure.shard_file_size_eq small, as_usize_as_i64 wide]
  dsimp only
  split
  · rw [min_eq_left (by omega)]
  · rw [min_eq_right (by omega)]

/-- The three formulas agree: the file size is the sum of the encoder's shard
lengths, the data shards hold the object, and the read window of a range ends
inside the file and behind every stripe the range touches. -/
theorem shard_file_geometry (erasure : Erasure) (total : Nat) (small : total < 2 ^ 63)
    (fits : erasure.shardFileBytes total < 2 ^ 63) :
    erasure.shardFileSize total =
        erasure.shardBytes total (blockCount erasure.blockSize total) ∧
      (total : Int) ≤ erasure.dataShards * erasure.shardFileSize total ∧
      ∀ offset length, 0 < length → offset + length ≤ total →
        (erasure.shardFileOffset offset length total : Int) ≤ erasure.shardFileSize total ∧
        erasure.shardBytes total ((offset + length - 1) / erasure.blockSize + 1) ≤
          erasure.shardFileOffset offset length total := by
  have size : erasure.shardFileSize total = erasure.shardFileBytes total := by
    rw [erasure.shard_file_size_eq small, as_i64_of_lt fits]
  rw [size, shard_bytes_all]
  constructor
  · rfl
  constructor
  · exact_mod_cast erasure.total_le_shard_file_bytes total
  intro offset length positive inside
  rw [erasure.shard_file_offset_eq small fits]
  constructor
  · exact_mod_cast Nat.min_le_left _ _
  · apply le_min
    · rw [← shard_bytes_all]
      apply shard_bytes_mono
      exact erasure.last_stripe_lt_block_count (by omega) inside
    · exact erasure.shard_bytes_le_till_offset total (offset + length)

/-- Blocks of four bytes over two data shards. -/
def sampleErasure : Erasure := ⟨2, 1, 4, false, by decide, by decide⟩

theorem shard_file_geometry_sample :
    sampleErasure.shardFileSize (9 : Nat) = sampleErasure.shardBytes 9 3 ∧
      sampleErasure.shardBytes 9 3 = 5 ∧ sampleErasure.shardFileOffset 3 2 9 = 4 := by
  have geometry := shard_file_geometry sampleErasure 9 (by decide) (by decide)
  exact ⟨geometry.1, by decide, by decide⟩

/-- A shard file of `2 ^ 63` bytes has a negative size. -/
theorem shard_file_size_wraps :
    ¬ ∀ (erasure : Erasure) (total : Nat), total < 2 ^ 63 → erasure.shardFileBytes total < 2 ^ 64 →
      erasure.shardFileSize total = erasure.shardBytes total (blockCount erasure.blockSize total) ∧
      (total : Int) ≤ erasure.dataShards * erasure.shardFileSize total := by
  intro every
  have holds := (every ⟨1, 0, 1, true, by decide, by decide⟩ (2 ^ 62) (by decide) (by decide)).2
  rw [shard_file_size_eq _ (by decide)] at holds
  revert holds
  decide

end Erasure

section

/-- What a writer received, and how the call ended. -/
structure Emitted where
  output : Bytes
  result : Except DiskError Nat

def getDataBlockLen (shards : List (Option Bytes)) (dataBlocks : Nat) : Nat :=
  ((shards.take dataBlocks).map fun shard => (shard.getD []).length).sum

/-- The loop of `write_data_blocks` over the data shards. -/
def writeShards : List (Option Bytes) → (offset writeLeft totalWritten : Nat) → Bytes → Emitted
  | [], _, _, _, output => ⟨output, .error (.io .unexpectedEof "Not enough data blocks to write")⟩
  | none :: _, _, _, _, output => ⟨output, .error (.io .unexpectedEof "Missing data block")⟩
  | some shard :: rest, offset, writeLeft, totalWritten, output =>
    if shard.length ≤ offset then
      writeShards rest (offset - shard.length) writeLeft totalWritten output
    else
      let slice := shard.drop offset
      let writeLen := min writeLeft slice.length
      let written := output ++ slice.take writeLen
      if writeLeft - writeLen = 0 then ⟨written, .ok (totalWritten + writeLen)⟩
      else writeShards rest 0 (writeLeft - writeLen) (totalWritten + writeLen) written

def writeDataBlocks (enBlocks : List (Option Bytes)) (dataBlocks offset length : Nat) : Emitted :=
  if enBlocks.length < dataBlocks then
    ⟨[], .error (.io .invalidInput "data block count exceeds available shards")⟩
  else if length = 0 then ⟨[], .ok 0⟩
  else if 2 ^ 64 ≤ offset + length then
    ⟨[], .error (.io .invalidInput "offset + length overflows")⟩
  else if getDataBlockLen enBlocks dataBlocks < offset + length then
    ⟨[], .error (.io .unexpectedEof "Not enough data blocks to write")⟩
  else writeShards (enBlocks.take dataBlocks) offset length 0 []

/-- The closure `block_geometry`: where in block `index` the range lies. -/
def blockGeometry (blockSize offset length index : Nat) : Nat × Nat :=
  let endOffset := offset + length
  let start := offset / blockSize
  let last := (endOffset - 1) / blockSize
  if start = last then (offset % blockSize, length)
  else if index = start then (offset % blockSize, blockSize - offset % blockSize)
  else if index = last then
    let endRemainder := endOffset % blockSize
    (0, if endRemainder = 0 then blockSize else endRemainder)
  else (0, blockSize)

structure DecodeOutcome where
  written : Nat
  output : Bytes
  error : Option DiskError

/-- Rebuilding the missing shards of one stripe. -/
abbrev Reconstruct := List (Option Bytes) → Except DiskError (List (Option Bytes))

namespace Erasure

/-- `emit_decoded_stripe`; the flag says whether the loop goes on. The source also folds the
errors of the drives into the result beside the bytes, which is left out. -/
def emitDecodedStripe (reconstruct : Reconstruct) (erasure : Erasure)
    (shards : List (Option Bytes)) (blockOffset blockLength : Nat) (outcome : DecodeOutcome) :
    Bool × DecodeOutcome :=
  if shards.countP Option.isSome < erasure.dataShards then
    (false, { outcome with error := some .erasureReadQuorum })
  else
    match reconstruct shards with
    | .error error => (false, { outcome with error := some error })
    | .ok decoded =>
      let emitted := writeDataBlocks decoded erasure.dataShards blockOffset blockLength
      let output := outcome.output ++ emitted.output
      match emitted.result with
      | .error error => (false, { outcome with output, error := some error })
      | .ok count => (true, { outcome with output, written := outcome.written + count })

/-- The serial loop of `decode_inner` over the stripe indices. -/
def decodeStripes (reconstruct : Reconstruct) (erasure : Erasure)
    (stripe : Nat → List (Option Bytes)) (offset length : Nat) :
    List Nat → DecodeOutcome → DecodeOutcome
  | [], outcome => outcome
  | index :: rest, outcome =>
    let geometry := blockGeometry erasure.blockSize offset length index
    if geometry.2 = 0 then outcome
    else
      match emitDecodedStripe reconstruct erasure (stripe index) geometry.1 geometry.2 outcome with
      | (false, stopped) => stopped
      | (true, next) => decodeStripes reconstruct erasure stripe offset length rest next

def decodeInner (reconstruct : Reconstruct) (erasure : Erasure) (readers : Nat)
    (stripe : Nat → List (Option Bytes)) (offset length totalLength : Nat) : DecodeOutcome :=
  if readers ≠ erasure.dataShards + erasure.parityShards then
    ⟨0, [], some (.io .invalidInput "Invalid number of readers")⟩
  else if 2 ^ 64 ≤ offset + length || totalLength < offset + length then
    ⟨0, [], some (.io .invalidInput "offset + length exceeds total length")⟩
  else if length = 0 then ⟨0, [], none⟩
  else
    let start := offset / erasure.blockSize
    let last := (offset + length - 1) / erasure.blockSize
    let outcome := decodeStripes reconstruct erasure stripe offset length
      (List.range' start (last + 1 - start)) ⟨0, [], none⟩
    if outcome.error.isNone && outcome.written < length then
      { outcome with error := some .lessData }
    else outcome

end Erasure

theorem write_shards_spec (shards : List Bytes) (offset left total : Nat) (output : Bytes)
    (positive : 0 < left) (enough : offset + left ≤ shards.flatten.length) :
    writeShards (shards.map some) offset left total output =
      ⟨output ++ (shards.flatten.drop offset).take left, .ok (total + left)⟩ := by
  induction shards generalizing offset left total output with
  | nil =>
    simp only [flatten_nil, length_nil] at enough
    omega
  | cons shard rest induction =>
    rw [flatten_cons, length_append] at enough
    rw [map_cons, writeShards, flatten_cons]
    split
    · rename_i skipped
      rw [induction _ _ _ _ positive (by omega), drop_append, drop_of_length_le skipped, nil_append]
    · have sliceLength : (shard.drop offset).length = shard.length - offset := length_drop
      rw [drop_append_of_le_length (by omega)]
      by_cases fits : left ≤ (shard.drop offset).length
      · simp only [Nat.min_eq_left fits, Nat.sub_self, if_true]
        rw [take_append_of_le_length fits]
      · have part : min left (shard.drop offset).length = (shard.drop offset).length :=
          Nat.min_eq_right (by omega)
        have more : ¬ left - (shard.drop offset).length = 0 := by omega
        simp only [part, more, if_false]
        have held : 0 + (left - (shard.drop offset).length) ≤ rest.flatten.length := by
          omega
        have whole : (shard.drop offset).take left = shard.drop offset :=
          take_of_length_le (by omega)
        rw [induction _ _ _ _ (by omega) held, drop_zero, take_length,
          take_append, whole, append_assoc, Nat.add_assoc,
          Nat.add_sub_cancel' (by omega)]

variable {shards : List Bytes}

theorem write_data_blocks_spec {enBlocks : List (Option Bytes)} {dataBlocks : Nat}
    (data : enBlocks.take dataBlocks = shards.map some)
    (count : shards.length = dataBlocks) (offset length : Nat) (positive : 0 < length)
    (small : offset + length < 2 ^ 64) (enough : offset + length ≤ shards.flatten.length) :
    writeDataBlocks enBlocks dataBlocks offset length =
      ⟨(shards.flatten.drop offset).take length, .ok length⟩ := by
  have counted : (enBlocks.take dataBlocks).length = dataBlocks := by
    rw [data, length_map, count]
  rw [length_take] at counted
  have measured : getDataBlockLen enBlocks dataBlocks = shards.flatten.length := by
    simp [getDataBlockLen, data, length_flatten, Function.comp_def]
  unfold writeDataBlocks
  rw [if_neg (by omega), if_neg (by omega), if_neg (by omega), measured, if_neg (by omega), data,
    write_shards_spec shards offset length 0 [] positive enough]
  simp

/-- The first byte of the range that lies in block `index`, and the end of it. -/
def stripeFrom (blockSize offset index : Nat) : Nat := max offset (index * blockSize)

def stripeTo (blockSize endOffset index : Nat) : Nat := min endOffset ((index + 1) * blockSize)

section

variable {blockSize offset length index : Nat}

theorem end_remainder (positive : 0 < blockSize) {endOffset : Nat} (filled : 0 < endOffset) :
    (if endOffset % blockSize = 0 then blockSize else endOffset % blockSize) =
      endOffset - (endOffset - 1) / blockSize * blockSize := by
  have split := Nat.div_add_mod' (endOffset - 1) blockSize
  have short := Nat.mod_lt (endOffset - 1) positive
  generalize quotient : (endOffset - 1) / blockSize = full at split ⊢
  generalize remainder : (endOffset - 1) % blockSize = rest at split short
  have shape : endOffset = rest + 1 + blockSize * full := by
    rw [Nat.mul_comm]
    omega
  have reduced : endOffset % blockSize = (rest + 1) % blockSize := by
    rw [shape, Nat.add_mul_mod_self_left]
  rw [reduced]
  by_cases wrap : rest + 1 = blockSize
  · rw [wrap, Nat.mod_self, if_pos rfl]
    omega
  · rw [Nat.mod_eq_of_lt (by omega), if_neg (by omega)]
    omega

/-- Every branch of the closure computes the same thing: the part of the range
inside the block. -/
theorem block_geometry_eq (positive : 0 < blockSize) (filled : 0 < length)
    (first : offset / blockSize ≤ index) (last : index ≤ (offset + length - 1) / blockSize) :
    blockGeometry blockSize offset length index =
      (stripeFrom blockSize offset index - index * blockSize,
        stripeTo blockSize (offset + length) index - stripeFrom blockSize offset index) := by
  have offsetSplit := Nat.div_add_mod' offset blockSize
  have offsetShort := Nat.mod_lt offset positive
  have endSplit := Nat.div_add_mod' (offset + length - 1) blockSize
  have endShort := Nat.mod_lt (offset + length - 1) positive
  have fromStart := Nat.mul_le_mul_right blockSize first
  have toLast := Nat.mul_le_mul_right blockSize last
  have next : (index + 1) * blockSize = index * blockSize + blockSize := Nat.succ_mul _ _
  unfold blockGeometry stripeFrom stripeTo
  rw [next]
  dsimp only
  split
  · rename_i single
    have here : index = offset / blockSize := by omega
    rw [← single] at endSplit toLast
    apply Prod.ext <;> dsimp only <;> omega
  · have before : offset / blockSize + 1 ≤ (offset + length - 1) / blockSize := by omega
    have beforeEnd := Nat.mul_le_mul_right blockSize before
    rw [Nat.succ_mul] at beforeEnd
    split
    · rename_i here
      rw [here]
      apply Prod.ext <;> dsimp only <;> omega
    · have behind : offset / blockSize + 1 ≤ index := by omega
      have behindStart := Nat.mul_le_mul_right blockSize behind
      rw [Nat.succ_mul] at behindStart
      split
      · rename_i final
        have remainder := end_remainder positive (by omega : 0 < offset + length)
        rw [final]
        apply Prod.ext
        · omega
        · rw [remainder]
          omega
      · have more : index + 1 ≤ (offset + length - 1) / blockSize := by omega
        have moreEnd := Nat.mul_le_mul_right blockSize more
        apply Prod.ext <;> dsimp only <;> omega

theorem stripe_from_lt_to (positive : 0 < blockSize) (filled : 0 < length)
    (first : offset / blockSize ≤ index) (last : index ≤ (offset + length - 1) / blockSize) :
    stripeFrom blockSize offset index < stripeTo blockSize (offset + length) index := by
  have offsetSplit := Nat.div_add_mod' offset blockSize
  have offsetShort := Nat.mod_lt offset positive
  have endSplit := Nat.div_add_mod' (offset + length - 1) blockSize
  have fromStart := Nat.mul_le_mul_right blockSize first
  have toLast := Nat.mul_le_mul_right blockSize last
  have next : (index + 1) * blockSize = index * blockSize + blockSize := Nat.succ_mul _ _
  unfold stripeFrom stripeTo
  omega

end

theorem stripe_to_eq_from_next (blockSize offset endOffset index : Nat)
    (more : (index + 1) * blockSize ≤ endOffset) (started : offset ≤ (index + 1) * blockSize) :
    stripeTo blockSize endOffset index = stripeFrom blockSize offset (index + 1) := by
  unfold stripeFrom stripeTo
  rw [min_eq_right more, max_eq_right started]

theorem drop_take_block {blockSize : Nat} (data : Bytes) {low high : Nat}
    (above : index * blockSize ≤ low) (below : high ≤ (index + 1) * blockSize) (rest : Bytes)
    (inside : high ≤ data.length) :
    ((block blockSize data index ++ rest).drop (low - index * blockSize)).take (high - low) =
      (data.drop low).take (high - low) := by
  rw [Nat.succ_mul] at below
  by_cases empty : high ≤ low
  · rw [Nat.sub_eq_zero_of_le empty, take_zero, take_zero]
  · have held : (block blockSize data index).length = blockLength blockSize data.length index :=
      length_block _ _ _
    rw [blockLength] at held
    rw [drop_append_of_le_length (by omega), take_append_of_le_length]
    · rw [block, drop_take, take_take, drop_drop, Nat.add_sub_cancel' above,
        Nat.min_eq_left (by omega)]
    · rw [length_drop]
      omega

theorem take_drop_append (data : Bytes) {low middle high : Nat} (first : low ≤ middle)
    (second : middle ≤ high) :
    (data.drop low).take (middle - low) ++ (data.drop middle).take (high - middle) =
      (data.drop low).take (high - low) := by
  have lengths : high - low = (middle - low) + (high - middle) := by omega
  rw [lengths, take_add, drop_drop, Nat.add_sub_cancel' first]

def HoldsShards (shards : List Bytes) (stripe : List (Option Bytes)) : Prop :=
  List.Forall₂ (fun shard slot => slot = none ∨ slot = some shard) shards stripe

/-- The stripes of an object: each is the encoding of its block, with enough
shards left to read it. -/
def StoredStripes (rs : ReedSolomon) (erasure : Erasure) (data : Bytes)
    (stripe : Nat → List (Option Bytes)) : Prop :=
  ∀ index < blockCount erasure.blockSize data.length, ∃ shards,
    Erasure.encodeData rs erasure (block erasure.blockSize data index) = .ok shards ∧
      HoldsShards shards (stripe index) ∧
      erasure.dataShards ≤ (stripe index).countP Option.isSome

/-- Reed-Solomon reconstruction: any `dataShards` shards of an encoded block give
the data shards back. -/
def Rebuilds (rs : ReedSolomon) (erasure : Erasure) (reconstruct : Reconstruct) : Prop :=
  ∀ data shards stripe, Erasure.encodeData rs erasure data = .ok shards →
    HoldsShards shards stripe → erasure.dataShards ≤ stripe.countP Option.isSome →
    ∃ decoded, reconstruct stripe = .ok decoded ∧
      decoded.take erasure.dataShards = (shards.take erasure.dataShards).map some

section

variable {rs : ReedSolomon} {erasure : Erasure} {reconstruct : Reconstruct} {data : Bytes}
  {stripe : Nat → List (Option Bytes)} {offset length : Nat}

theorem emit_decoded_stripe_spec (stored : StoredStripes rs erasure data stripe)
    (rebuilds : Rebuilds rs erasure reconstruct) {low high : Nat} (order : low < high)
    (above : index * erasure.blockSize ≤ low) (below : high ≤ (index + 1) * erasure.blockSize)
    (inside : high ≤ data.length) (small : data.length < 2 ^ 64) (outcome : DecodeOutcome) :
    Erasure.emitDecodedStripe reconstruct erasure (stripe index) (low - index * erasure.blockSize)
        (high - low) outcome =
      (true, { outcome with
        output := outcome.output ++ (data.drop low).take (high - low)
        written := outcome.written + (high - low) }) := by
  have inRange : index < blockCount erasure.blockSize data.length := by
    rw [lt_block_count_iff erasure.blockPositive]
    omega
  obtain ⟨shards, encoded, holds, enough⟩ := stored index inRange
  obtain ⟨decoded, rebuilt, same⟩ := rebuilds _ _ _ encoded holds enough
  obtain ⟨padded, count⟩ := Erasure.encode_data_shards encoded
  have blockHolds : low - index * erasure.blockSize + (high - low) ≤
      (block erasure.blockSize data index).length := by
    rw [length_block, blockLength]
    rw [Nat.succ_mul] at below
    omega
  have written := write_data_blocks_spec same count (low - index * erasure.blockSize) (high - low)
    (by omega) (by omega)
    (by rw [padded, length_append]; omega)
  rw [padded, drop_take_block data above below _ inside] at written
  unfold Erasure.emitDecodedStripe
  rw [if_neg (by omega), rebuilt]
  dsimp only
  rw [written]

theorem decode_stripes_cons (stored : StoredStripes rs erasure data stripe)
    (rebuilds : Rebuilds rs erasure reconstruct) {offset length : Nat} (filled : 0 < length)
    (inside : offset + length ≤ data.length) (small : data.length < 2 ^ 64)
    (first : offset / erasure.blockSize ≤ index)
    (last : index ≤ (offset + length - 1) / erasure.blockSize) (rest : List Nat)
    (outcome : DecodeOutcome) :
    Erasure.decodeStripes reconstruct erasure stripe offset length (index :: rest) outcome =
      Erasure.decodeStripes reconstruct erasure stripe offset length rest { outcome with
        output := outcome.output ++ (data.drop (stripeFrom erasure.blockSize offset index)).take
          (stripeTo erasure.blockSize (offset + length) index -
            stripeFrom erasure.blockSize offset index)
        written := outcome.written + (stripeTo erasure.blockSize (offset + length) index -
          stripeFrom erasure.blockSize offset index) } := by
  have order := stripe_from_lt_to erasure.blockPositive filled first last
  have emitted := emit_decoded_stripe_spec stored rebuilds order (le_max_right _ _)
    (min_le_right _ _) (le_trans (min_le_left _ _) inside) small outcome
  rw [Erasure.decodeStripes, block_geometry_eq erasure.blockPositive filled first last]
  dsimp only
  rw [if_neg (by omega), emitted]

theorem decode_stripes_spec (stored : StoredStripes rs erasure data stripe)
    (rebuilds : Rebuilds rs erasure reconstruct) (filled : 0 < length)
    (inside : offset + length ≤ data.length) (small : data.length < 2 ^ 64) (index count : Nat)
    (first : offset / erasure.blockSize ≤ index)
    (last : index + count = (offset + length - 1) / erasure.blockSize) (outcome : DecodeOutcome) :
    Erasure.decodeStripes reconstruct erasure stripe offset length
        (List.range' index (count + 1)) outcome =
      { outcome with
        output := outcome.output ++ (data.drop (stripeFrom erasure.blockSize offset index)).take
          (offset + length - stripeFrom erasure.blockSize offset index)
        written := outcome.written +
          (offset + length - stripeFrom erasure.blockSize offset index) } := by
  induction count generalizing index outcome with
  | zero =>
    have endSplit := Nat.div_add_mod' (offset + length - 1) erasure.blockSize
    have endShort := Nat.mod_lt (offset + length - 1) erasure.blockPositive
    have final : stripeTo erasure.blockSize (offset + length) index = offset + length := by
      rw [stripeTo, Nat.succ_mul]
      rw [Nat.add_zero] at last
      rw [last]
      omega
    rw [List.range'_succ, decode_stripes_cons stored rebuilds filled inside small first (by omega),
      final, List.range'_zero, Erasure.decodeStripes]
  | succ count induction =>
    have more : index + 1 ≤ (offset + length - 1) / erasure.blockSize := by omega
    have moreEnd := Nat.mul_le_mul_right erasure.blockSize more
    have endSplit := Nat.div_add_mod' (offset + length - 1) erasure.blockSize
    have started : offset < (index + 1) * erasure.blockSize :=
      (Nat.div_lt_iff_lt_mul erasure.blockPositive).1 (by omega)
    have joined := stripe_to_eq_from_next erasure.blockSize offset (offset + length) index
      (by omega) (by omega)
    have order := stripe_from_lt_to erasure.blockPositive filled first (by omega : index ≤ _)
    have bound : stripeTo erasure.blockSize (offset + length) index ≤ offset + length :=
      min_le_left _ _
    rw [List.range'_succ, decode_stripes_cons stored rebuilds filled inside small first (by omega),
      induction (index + 1) (by omega) (by omega)]
    rw [joined] at order bound ⊢
    rw [append_assoc, take_drop_append data order.le bound, Nat.add_assoc]
    congr 2
    omega

theorem decode_inner_spec (stored : StoredStripes rs erasure data stripe)
    (rebuilds : Rebuilds rs erasure reconstruct)
    (inside : offset + length ≤ data.length) (small : data.length < 2 ^ 64) :
    Erasure.decodeInner reconstruct erasure erasure.totalShardCount stripe offset length
        data.length = ⟨length, (data.drop offset).take length, none⟩ := by
  unfold Erasure.decodeInner
  rw [if_neg (by simp [Erasure.totalShardCount]), if_neg (by simp; omega)]
  split
  · rename_i vacant
    rw [vacant, take_zero]
  · rename_i filled
    have first : offset / erasure.blockSize ≤ (offset + length - 1) / erasure.blockSize :=
      Nat.div_le_div_right (by omega)
    have started : stripeFrom erasure.blockSize offset (offset / erasure.blockSize) = offset :=
      max_eq_left (Nat.div_mul_le_self _ _)
    have run := decode_stripes_spec stored rebuilds (Nat.pos_of_ne_zero filled) inside small
      (offset / erasure.blockSize)
      ((offset + length - 1) / erasure.blockSize - offset / erasure.blockSize) le_rfl (by omega)
      ⟨0, [], Option.none⟩
    rw [started, Nat.add_sub_cancel_left, nil_append, Nat.zero_add] at run
    dsimp only
    rw [Nat.sub_add_comm first, run]
    simp

theorem block_geometry_inside (inside : offset + length ≤ data.length) (filled : 0 < length)
    (first : offset / erasure.blockSize ≤ index)
    (last : index ≤ (offset + length - 1) / erasure.blockSize) :
    0 < (blockGeometry erasure.blockSize offset length index).2 ∧
      (blockGeometry erasure.blockSize offset length index).1 +
          (blockGeometry erasure.blockSize offset length index).2 ≤
        (block erasure.blockSize data index).length := by
  have order := stripe_from_lt_to erasure.blockPositive filled first last
  have above : index * erasure.blockSize ≤ stripeFrom erasure.blockSize offset index :=
    le_max_right _ _
  have blockEnd : stripeTo erasure.blockSize (offset + length) index ≤
      (index + 1) * erasure.blockSize := min_le_right _ _
  have rangeEnd : stripeTo erasure.blockSize (offset + length) index ≤ offset + length :=
    min_le_left _ _
  rw [block_geometry_eq erasure.blockPositive filled first last, length_block, blockLength]
  rw [Nat.succ_mul] at blockEnd
  constructor
  all_goals
    omega

/-- A range of a stored object is read back exactly, and every stripe it touches contributes bytes
of its own block. Which shards of a stripe are there is left open, as long as they are enough to
rebuild the data. -/
theorem range_decode_exact (rs : ReedSolomon) (erasure : Erasure) (reconstruct : Reconstruct)
    (data : Bytes) (stripe : Nat → List (Option Bytes)) (small : data.length < 2 ^ 64)
    (stored : StoredStripes rs erasure data stripe) (rebuilds : Rebuilds rs erasure reconstruct)
    (offset length : Nat) (inside : offset + length ≤ data.length) :
    Erasure.decodeInner reconstruct erasure erasure.totalShardCount stripe offset length
        data.length = ⟨length, (data.drop offset).take length, none⟩ ∧
      ∀ index, 0 < length → offset / erasure.blockSize ≤ index →
        index ≤ (offset + length - 1) / erasure.blockSize →
        0 < (blockGeometry erasure.blockSize offset length index).2 ∧
          (blockGeometry erasure.blockSize offset length index).1 +
              (blockGeometry erasure.blockSize offset length index).2 ≤
            (block erasure.blockSize data index).length := by
  constructor
  · exact decode_inner_spec stored rebuilds inside small
  · intro index filled first last
    exact block_geometry_inside inside filled first last

end

theorem all_present {stripe : List (Option Bytes)}
    (holds : HoldsShards shards stripe) (full : shards.length ≤ stripe.countP Option.isSome) :
    stripe = shards.map some := by
  induction holds with
  | nil => rfl
  | @cons shard slot shards stripe held rest induction =>
    have bound : stripe.countP Option.isSome ≤ shards.length := by
      rw [List.Forall₂.length_eq rest]
      exact countP_le_length
    rcases held with rfl | rfl
    · simp at full
      omega
    · simp only [length_cons, countP_cons, Option.isSome_some, if_true] at full
      rw [induction (by omega), map_cons]

theorem length_encode_data_le (encoded : Erasure.encodeData rs erasure data = .ok shards) :
    shards.length ≤ erasure.totalShardCount := by
  obtain ⟨block, _, same⟩ := Outcome.map_eq_ok.1 encoded
  rw [← same, EncodedBlock.intoShards]
  split
  · rw [length_replicate]
  · rw [length_take]
    exact Nat.min_le_left _ _

theorem rebuilds_without_parity (rs : ReedSolomon)
    (noParity : erasure.parityShards = 0) : Rebuilds rs erasure .ok := by
  intro data shards stripe encoded holds enough
  have bound := length_encode_data_le encoded
  rw [Erasure.totalShardCount, noParity, Nat.add_zero] at bound
  have full := all_present holds (le_trans bound enough)
  exact ⟨stripe, rfl, by rw [full, map_take]⟩

/-- Blocks of three bytes over two data shards, so that a full block is padded. -/
def unevenErasure : Erasure := ⟨2, 0, 3, false, Nat.two_pos, by decide⟩

def noRecovery : ReedSolomon := ⟨fun _ _ _ => .ok []⟩

/-- The two stripes of the object `1, 2, 3, 4, 5`. -/
def unevenStripe (index : Nat) : List (Option Bytes) :=
  if index = 0 then [some [1, 2], some [3, 0]] else [some [4], some [5]]

theorem uneven_stored : StoredStripes noRecovery unevenErasure [1, 2, 3, 4, 5] unevenStripe := by
  intro index inRange
  have bound : index < 2 := inRange
  interval_cases index
  · exact ⟨[[1, 2], [3, 0]], rfl, .cons (.inr rfl) (.cons (.inr rfl) .nil), by decide⟩
  · exact ⟨[[4], [5]], rfl, .cons (.inr rfl) (.cons (.inr rfl) .nil), by decide⟩

theorem range_decode_exact_uneven :
    2 + 2 ≤ 5 ∧ Erasure.decodeInner .ok unevenErasure 2 unevenStripe 2 2 5 =
      ⟨2, [3, 4], none⟩ := by
  constructor
  · decide
  · exact (range_decode_exact noRecovery unevenErasure .ok [1, 2, 3, 4, 5] unevenStripe (by decide)
      uneven_stored (rebuilds_without_parity _ rfl) 2 2 (by decide)).1

end

/-- One stripe as the shard source hands it over; `integrity` is the check of a
`ReconstructionProof` bound to it. -/
structure StripeReadState where
  shards : List (Option Bytes)
  readQuorum : Nat
  integrity : Option (List (Option Bytes) → Except DiskError Unit)

namespace StripeReadState

def availableShards (state : StripeReadState) : Nat := state.shards.countP Option.isSome

def canDecode (state : StripeReadState) : Bool := state.readQuorum ≤ state.availableShards

def isEmpty (state : StripeReadState) : Bool := state.shards.isEmpty

def dataBytes (state : StripeReadState) (index : Nat) : Option Bytes :=
  (state.shards[index]?).join

def dataShardsComplete (state : StripeReadState) (dataShards : Nat) : Bool :=
  dataShards ≤ state.shards.length && (state.shards.take dataShards).all Option.isSome

def verifyReconstructedIntegrity (state : StripeReadState) : Except DiskError Unit :=
  match state.integrity with
  | none => .ok ()
  | some verify => verify state.shards

end StripeReadState

/-- The parts of `ErasureDecodeEngine` the reader uses. -/
structure ErasureDecodeEngine where
  dataShards : Nat
  blockSize : Nat
  reconstructInto : Reconstruct

/-- The copy loop over the data shards, common to both branches. -/
def emitShards (remaining : Nat) : List (Option Bytes) → Bytes → Except DiskError Bytes
  | [], output => .ok output
  | slot :: rest, output =>
    if remaining ≤ output.length then .ok output
    else
      match slot with
      | none => .error (.io .unexpectedEof "decoded stripe is missing a data shard")
      | some shard =>
        let copyLen := min shard.length (remaining - output.length)
        emitShards remaining rest (output ++ shard.take copyLen)

def emitDataShardsInto (state : StripeReadState) (dataShards remaining : Nat) :
    Except DiskError Bytes :=
  emitShards remaining ((List.range dataShards).map state.dataBytes) []

/-- `decode_stripe_into`; no output stands for the end of the source. -/
def decodeStripeInto (engine : ErasureDecodeEngine) (state : StripeReadState) (remaining : Nat) :
    Except DiskError (Option Bytes) :=
  if state.isEmpty then .ok none
  else if !state.canDecode then .error .erasureReadQuorum
  else if state.dataShardsComplete engine.dataShards then
    (emitDataShardsInto state engine.dataShards remaining).map some
  else
    match engine.reconstructInto state.shards with
    | .error error => .error error
    | .ok shards =>
      match { state with shards := shards }.verifyReconstructedIntegrity with
      | .error error => .error error
      | .ok _ =>
        if shards.length < engine.dataShards then
          .error (.io .unexpectedEof "decoded stripe has fewer shards than data shard count")
        else (emitShards remaining (shards.take engine.dataShards) []).map some

/-- The outputs of consecutive stripes put together; each one lowers the number
of bytes that are still missing. -/
def decodeStripeStream (engine : ErasureDecodeEngine) : List StripeReadState → Nat →
    Except DiskError Bytes
  | [], _ => .ok []
  | state :: rest, remaining => do
      let output ← decodeStripeInto engine state remaining
      let behind ← decodeStripeStream engine rest (remaining - (output.getD []).length)
      pure (output.getD [] ++ behind)

/-- Zeros behind a block of `length` bytes in its data shards. -/
def Erasure.padding (erasure : Erasure) (length : Nat) : Nat :=
  erasure.dataShards * erasure.perShardSize length - length

theorem emit_shards_spec (remaining : Nat) (shards : List Bytes) (output : Bytes) :
    emitShards remaining (shards.map some) output =
      .ok (output ++ shards.flatten.take (remaining - output.length)) := by
  induction shards generalizing output with
  | nil => simp [emitShards]
  | cons shard rest induction =>
    rw [map_cons, emitShards, flatten_cons]
    split
    · rename_i reached
      rw [Nat.sub_eq_zero_of_le reached, take_zero, append_nil]
    · have copied : shard.take (min shard.length (remaining - output.length)) =
          shard.take (remaining - output.length) := by
        rw [Nat.min_comm, ← take_eq_take_min]
      have left : remaining - (output ++ shard.take (remaining - output.length)).length =
          remaining - output.length - shard.length := by
        rw [length_append, length_take]
        omega
      dsimp only
      rw [copied, induction, left, append_assoc, take_append]

theorem map_data_bytes {state : StripeReadState} {dataShards : Nat}
    (enough : dataShards ≤ state.shards.length) :
    (List.range dataShards).map state.dataBytes = state.shards.take dataShards := by
  apply ext_getElem
  · rw [length_map, length_range, length_take, Nat.min_eq_left enough]
  · intro index left right
    rw [length_map, length_range] at left
    have inside : index < state.shards.length := by omega
    simp [StripeReadState.dataBytes, getElem?_eq_getElem inside]

/-- The proofs bound to the stripes accept the shards that were stored. -/
def AcceptsStored (rs : ReedSolomon) (erasure : Erasure) (data : Bytes)
    (state : Nat → StripeReadState) : Prop :=
  ∀ index shards decoded verify,
    Erasure.encodeData rs erasure (block erasure.blockSize data index) = .ok shards →
    decoded.take erasure.dataShards = (shards.take erasure.dataShards).map some →
    (state index).integrity = some verify → verify decoded = .ok ()

section

variable {rs : ReedSolomon} {erasure : Erasure} {engine : ErasureDecodeEngine} {data : Bytes}
  {state : Nat → StripeReadState}

/-- A stored stripe decodes to its block and the padding, up to the bytes that
are still missing. -/
theorem decode_stripe_into_spec
    (stored : StoredStripes rs erasure data fun index => (state index).shards)
    (rebuilds : Rebuilds rs erasure engine.reconstructInto)
    (accepts : AcceptsStored rs erasure data state)
    (sameShards : engine.dataShards = erasure.dataShards)
    (quorum : ∀ index, (state index).readQuorum = erasure.dataShards)
    (inRange : index < blockCount erasure.blockSize data.length) (remaining : Nat) :
    decodeStripeInto engine (state index) remaining =
      .ok (some ((padded 0 erasure.padding (block erasure.blockSize data index)).take
        remaining)) := by
  obtain ⟨shards, encoded, holds, enough⟩ := stored index inRange
  obtain ⟨decoded, rebuilt, same⟩ := rebuilds _ _ _ encoded holds enough
  obtain ⟨flat, count⟩ := Erasure.encode_data_shards encoded
  have dataPositive := erasure.dataPositive
  have wide : erasure.dataShards ≤ (state index).shards.length :=
    le_trans enough countP_le_length
  have notEmpty : (state index).isEmpty = false := by
    rw [StripeReadState.isEmpty, isEmpty_eq_false_iff]
    intro vacant
    rw [vacant] at wide
    simp at wide
    omega
  have canDecode : (state index).canDecode = true := by
    rw [StripeReadState.canDecode, quorum, StripeReadState.availableShards]
    exact decide_eq_true enough
  have copied : emitShards remaining ((shards.take erasure.dataShards).map some) [] =
      .ok ((padded 0 erasure.padding (block erasure.blockSize data index)).take remaining) := by
    rw [emit_shards_spec, flat]
    rfl
  unfold decodeStripeInto
  rw [notEmpty, canDecode, sameShards]
  simp only [Bool.false_eq_true, Bool.not_true, if_false]
  split
  · rename_i complete
    have present : (state index).shards.take erasure.dataShards =
        (shards.take erasure.dataShards).map some := by
      apply all_present (forall₂_take _ holds)
      rw [count]
      rw [StripeReadState.dataShardsComplete, Bool.and_eq_true, all_eq_true] at complete
      rw [countP_eq_length.2 complete.2, length_take, Nat.min_eq_left wide]
    rw [emitDataShardsInto, map_data_bytes wide, present, copied]
    rfl
  · rw [rebuilt]
    have verified : { state index with shards := decoded }.verifyReconstructedIntegrity =
        .ok () := by
      unfold StripeReadState.verifyReconstructedIntegrity
      cases bound : (state index).integrity with
      | none => rfl
      | some verify => exact accepts index shards decoded verify encoded same bound
    dsimp only
    rw [verified]
    have long : ¬ decoded.length < erasure.dataShards := by
      have taken : (decoded.take erasure.dataShards).length = erasure.dataShards := by
        rw [same, length_map, count]
      rw [length_take] at taken
      omega
    rw [if_neg long, same, copied]
    rfl

/-- The stripes from `index` on give their padded blocks, up to the bytes that
are still missing. -/
theorem decode_stripe_stream_spec
    (stored : StoredStripes rs erasure data fun index => (state index).shards)
    (rebuilds : Rebuilds rs erasure engine.reconstructInto)
    (accepts : AcceptsStored rs erasure data state)
    (sameShards : engine.dataShards = erasure.dataShards)
    (quorum : ∀ index, (state index).readQuorum = erasure.dataShards) (indices : List Nat)
    (inRange : ∀ index ∈ indices, index < blockCount erasure.blockSize data.length)
    (remaining : Nat) :
    decodeStripeStream engine (indices.map state) remaining =
      .ok ((padAll 0 erasure.padding (indices.map (block erasure.blockSize data))).take
        remaining) := by
  induction indices generalizing remaining with
  | nil => simp [decodeStripeStream]
  | cons index rest induction =>
    have first := decode_stripe_into_spec stored rebuilds accepts sameShards quorum
      (inRange index mem_cons_self) remaining
    have behind := fun left => induction
      (fun other member => inRange other (mem_cons_of_mem _ member)) left
    rw [map_cons, decodeStripeStream, first, Outcome.ok_bind, Option.getD_some, behind,
      Outcome.ok_bind, map_cons, pad_all_cons_append, take_append, length_take]
    have left : ∀ length, remaining - min remaining length = remaining - length := by omega
    rw [left]
    rfl

end

theorem padding_eq_zero_iff (erasure : Erasure) :
    erasure.padding erasure.blockSize = 0 ↔
      erasure.dataShards * erasure.shardSize = erasure.blockSize := by
  have within := erasure.length_le_data_shards erasure.blockSize
  rw [Erasure.padding, Erasure.shard_size_eq]
  omega

theorem length_inner_block {size : Nat} (positive : 0 < size) (data : Bytes) :
    ∀ piece ∈ ((List.range (blockCount size data.length)).map (block size data)).dropLast,
      piece.length = size := by
  intro piece member
  cases counted : blockCount size data.length with
  | zero =>
    rw [counted] at member
    simp at member
  | succ count =>
    rw [counted, range_succ, map_append, map_singleton, dropLast_concat] at member
    obtain ⟨index, listed, rfl⟩ := mem_map.1 member
    have before : index + 1 < blockCount size data.length := by
      rw [counted]
      exact Nat.succ_lt_succ (mem_range.1 listed)
    rw [length_block]
    exact block_length_full ((lt_block_count_iff positive _ _).1 before).le

theorem blocks_eq_cons {size : Nat} (positive : 0 < size) (long : size < data.length) :
    ∃ rest, (List.range (blockCount size data.length)).map (block size data) =
        data.take size :: rest ∧ rest.flatten = data.drop size := by
  have several : 0 < blockCount size data.length := by
    rw [lt_block_count_iff positive]
    omega
  obtain ⟨count, counted⟩ := Nat.exists_eq_add_of_lt several
  have joined := flatten_blocks positive data
  rw [counted, Nat.zero_add, range_succ_eq_map, map_cons] at joined ⊢
  refine ⟨_, by rw [block, Nat.zero_mul, drop_zero], ?_⟩
  rw [flatten_cons, block, Nat.zero_mul, drop_zero] at joined
  rw [← append_right_inj (data.take size), joined, take_append_drop]

/-- Cutting only at the end of the object loses nothing exactly when no padding
comes before another block, or the padding cannot be told from the data. -/
theorem take_padded_blocks_iff (erasure : Erasure) (data : Bytes) :
    (padAll 0 erasure.padding ((List.range (blockCount erasure.blockSize data.length)).map
        (block erasure.blockSize data))).take data.length = data ↔
      data.length ≤ erasure.blockSize ∨
        erasure.dataShards * erasure.shardSize = erasure.blockSize ∨
        ∀ byte ∈ data.drop erasure.blockSize, byte = 0 := by
  have positive := erasure.blockPositive
  have joined := flatten_blocks positive data
  have unpadded := take_pad_all_of_last 0 erasure.padding
    ((List.range (blockCount erasure.blockSize data.length)).map (block erasure.blockSize data))
  rw [joined] at unpadded
  by_cases short : data.length ≤ erasure.blockSize
  · have few : blockCount erasure.blockSize data.length ≤ 1 := by
      rw [blockCount, ceilDiv_le_iff_le_mul positive, Nat.mul_one]
      exact short
    have vacant : ((List.range (blockCount erasure.blockSize data.length)).map
        (block erasure.blockSize data)).dropLast = [] := by
      apply eq_nil_of_length_eq_zero
      rw [length_dropLast, length_map, length_range]
      omega
    rw [vacant] at unpadded
    simp [short, unpadded]
  · by_cases even : erasure.padding erasure.blockSize = 0
    · have inner := length_inner_block positive data
      have whole := unpadded fun piece member => by rw [inner piece member, even]
      simp [whole, (padding_eq_zero_iff erasure).1 even]
    · obtain ⟨rest, shape, tail⟩ := blocks_eq_cons positive (lt_of_not_ge short)
      have firstLength : (data.take erasure.blockSize).length = erasure.blockSize := by
        rw [length_take]
        omega
      have shifted := take_pad_all_cons_iff 0 erasure.padding (data.take erasure.blockSize) rest
        (by rw [firstLength]; omega)
      rw [← shape, joined, tail] at shifted
      rw [shifted]
      have uneven := (padding_eq_zero_iff erasure).not.1 even
      simp [short, uneven]

/-- A streaming read returns the stored object exactly when the object fits one
block, a full block fills its data shards, or all bytes behind the first block
are zero. The range decoder returns it always. -/
theorem codec_stream_exact_iff (rs : ReedSolomon) (erasure : Erasure)
    (engine : ErasureDecodeEngine) (data : Bytes) (state : Nat → StripeReadState)
    (small : data.length < 2 ^ 64) (sameShards : engine.dataShards = erasure.dataShards)
    (quorum : ∀ index, (state index).readQuorum = erasure.dataShards)
    (stored : StoredStripes rs erasure data fun index => (state index).shards)
    (rebuilds : Rebuilds rs erasure engine.reconstructInto)
    (accepts : AcceptsStored rs erasure data state) :
    (Erasure.decodeInner engine.reconstructInto erasure erasure.totalShardCount
        (fun index => (state index).shards) 0 data.length data.length).output = data ∧
      (decodeStripeStream engine
          ((List.range (blockCount erasure.blockSize data.length)).map state) data.length =
          .ok data ↔
        data.length ≤ erasure.blockSize ∨
          erasure.dataShards * erasure.shardSize = erasure.blockSize ∨
          ∀ byte ∈ data.drop erasure.blockSize, byte = 0) := by
  constructor
  · have inside : 0 + data.length ≤ data.length := by omega
    rw [decode_inner_spec stored rebuilds inside small, drop_zero, take_length]
  · rw [decode_stripe_stream_spec stored rebuilds accepts sameShards quorum _
      (fun index listed => mem_range.1 listed), Except.ok.injEq]
    exact take_padded_blocks_iff erasure data

def unevenState (index : Nat) : StripeReadState := ⟨unevenStripe index, 2, none⟩

def unevenEngine : ErasureDecodeEngine := ⟨2, 3, .ok⟩

theorem uneven_accepts : AcceptsStored noRecovery unevenErasure [1, 2, 3, 4, 5] unevenState := by
  intro index shards decoded verify _ _ bound
  cases bound

theorem codec_stream_exact_iff_uneven :
    ¬ decodeStripeStream unevenEngine ((List.range 2).map unevenState) 5 =
      .ok [1, 2, 3, 4, 5] := by
  have exactly := (codec_stream_exact_iff noRecovery unevenErasure unevenEngine [1, 2, 3, 4, 5]
    unevenState (by decide) rfl (fun _ => rfl) uneven_stored (rebuilds_without_parity _ rfl)
    uneven_accepts).2
  intro read
  have condition := exactly.1 read
  revert condition
  decide

/-- The padding of the first block comes out before the second block. -/
theorem codec_stream_leaks_padding :
    ¬ ∀ (rs : ReedSolomon) (erasure : Erasure) (engine : ErasureDecodeEngine) (data : Bytes)
      (state : Nat → StripeReadState), data.length < 2 ^ 64 →
      engine.dataShards = erasure.dataShards →
      (∀ index, (state index).readQuorum = erasure.dataShards) →
      StoredStripes rs erasure data (fun index => (state index).shards) →
      Rebuilds rs erasure engine.reconstructInto → AcceptsStored rs erasure data state →
      decodeStripeStream engine
        ((List.range (blockCount erasure.blockSize data.length)).map state) data.length =
        .ok data := by
  intro every
  have read := every noRecovery unevenErasure unevenEngine [1, 2, 3, 4, 5] unevenState (by decide)
    rfl (fun _ => rfl) uneven_stored (rebuilds_without_parity _ rfl) uneven_accepts
  have leaked : decodeStripeStream unevenEngine ((List.range 2).map unevenState) 5 =
      .ok [1, 2, 3, 0, 4] := rfl
  have same := Except.ok.inj (leaked.symm.trans read)
  revert same
  decide

end Rustfs.Ecstore
