import Rustfs.Ecstore.CompressedRange
import Rustfs.Ecstore.DataMovement
import Rustfs.Rio.EncryptReader

/-!
# Where a range of an encrypted object is stored

The plans of `object_api/readers.rs` for ranges of encrypted objects: a window of frames for a v2
object of one part, and the span of the parts that meet the range for an object of several parts.
The switch of the environment for seeking is an argument. The amplification metric is left out.
-/

namespace Rustfs.Ecstore

open List Library Rio Utils
open Filemeta (ObjectPartInfo)
open Library.ByteReader (Bytes)

def checkedI64 (value : Int) : Option Int :=
  if -2 ^ 63 ≤ value ∧ value < 2 ^ 63 then some value else none

/-- `usize::try_from` of an `i64`. -/
def usizeFromI64 (value : Int) : Option Nat :=
  if 0 ≤ value ∧ value < 2 ^ 63 then some value.toNat else none

/-- `u32::try_from` of an `i64`. -/
def u32FromI64 (value : Int) : Option Nat :=
  if 0 ≤ value ∧ value < 2 ^ 32 then some value.toNat else none

theorem checked_i64 {value : Int} (low : -2 ^ 63 ≤ value) (high : value < 2 ^ 63) :
    checkedI64 value = some value := if_pos ⟨low, high⟩

theorem checked_value {value result : Int} (checked : checkedI64 value = some result) :
    result = value := by
  unfold checkedI64 at checked
  split at checked
  · cases checked
    rfl
  · cases checked

/-- With the frame, or the part, that the window starts with. -/
structure EncryptedOffsets where
  storageOffset : Int
  storageLength : Int
  plaintextSkip : Nat
  start : Nat
  remainingPlaintext : Int
  deriving DecidableEq

def v2FramePlaintextLen : Int := 8 * 1024

def v2FrameCiphertextLen : Int := 8 + 2 + v2FramePlaintextLen + 16

def v2StorageEnd (size endFrame totalFullFrames : Int) : Option Int := do
  let following ← checkedI64 (endFrame + 1)
  if following < totalFullFrames then
    let storageEnd ← checkedI64 (following * v2FrameCiphertextLen)
    some (min storageEnd size)
  else some size

def getV2FrameOffsets (oi : ObjectInfo) (offset length plaintextSize : Int) :
    Option EncryptedOffsets := do
  guard (0 ≤ offset ∧ 0 < length ∧ 0 ≤ plaintextSize)
  let past ← checkedI64 (offset + length)
  let last ← checkedI64 (past - 1)
  guard (last < plaintextSize)
  let frameIndex := offset / v2FramePlaintextLen
  let storageOffset ← checkedI64 (frameIndex * v2FrameCiphertextLen)
  guard (storageOffset < oi.size.toInt)
  let storageEnd ← v2StorageEnd oi.size.toInt (last / v2FramePlaintextLen)
    (plaintextSize / v2FramePlaintextLen)
  guard (storageOffset < storageEnd)
  let plaintextSkip ← usizeFromI64 (offset % v2FramePlaintextLen)
  let framePlaintext ← checkedI64 (frameIndex * v2FramePlaintextLen)
  let remainingPlaintext ← checkedI64 (plaintextSize - framePlaintext)
  let startingFrame ← u32FromI64 frameIndex
  some ⟨storageOffset, storageEnd - storageOffset, plaintextSkip, startingFrame, remainingPlaintext⟩

def addPartLayout (totals : Int × Int) (part : ObjectPartInfo) : Option (Int × Int) := do
  let partPhysicalSize ← checkedI64 part.size.toNat
  guard (0 < part.actualSize.toInt)
  let physicalSize ← checkedI64 (totals.1 + partPhysicalSize)
  let plaintextSize ← checkedI64 (totals.2 + part.actualSize.toInt)
  some (physicalSize, plaintextSize)

def legacyPartLayoutTotals (parts : List ObjectPartInfo) : Option (Int × Int) :=
  if parts = [] then none else parts.foldlM addPartLayout (0, 0)

/-- What the loop over the parts from the first covering one on has added up. -/
structure TailScan where
  coveredPlaintextEnd : Int
  physicalEnd : Int
  remainingPlaintext : Int
  covered : Bool

def TailScan.take (endPlaintext : Int) (scan : TailScan) (part : ObjectPartInfo) :
    Option TailScan := do
  let remainingPlaintext ← checkedI64 (scan.remainingPlaintext + part.actualSize.toInt)
  if scan.covered then some { scan with remainingPlaintext := remainingPlaintext }
  else
    let size ← checkedI64 part.size.toNat
    let physicalEnd ← checkedI64 (scan.physicalEnd + size)
    let coveredPlaintextEnd ← checkedI64 (scan.coveredPlaintextEnd + part.actualSize.toInt)
    some ⟨coveredPlaintextEnd, physicalEnd, remainingPlaintext,
      decide (endPlaintext < coveredPlaintextEnd)⟩

/-- The plan that starts with the first of the parts. -/
def coveringPlan (offset endPlaintext cumulativePlaintextSize cumulativeEncryptedSize : Int)
    (partIndex : Nat) (parts : List ObjectPartInfo) : Option EncryptedOffsets := do
  let scan ← parts.foldlM (TailScan.take endPlaintext)
    ⟨cumulativePlaintextSize, cumulativeEncryptedSize, 0, false⟩
  guard (scan.covered = true)
  let plaintextSkip ← usizeFromI64 (offset - cumulativePlaintextSize)
  let physicalLength ← checkedI64 (scan.physicalEnd - cumulativeEncryptedSize)
  some ⟨cumulativeEncryptedSize, physicalLength, plaintextSkip, partIndex, scan.remainingPlaintext⟩

/-- The loop that looks for the first covering part. -/
def seekPart (offset endPlaintext : Int) : (cumulativePlaintextSize cumulativeEncryptedSize : Int) →
    Nat → List ObjectPartInfo → Option EncryptedOffsets
  | _, _, _, [] => none
  | cumulativePlaintextSize, cumulativeEncryptedSize, partIndex, part :: rest => do
      let partPlaintextEnd ← checkedI64 (cumulativePlaintextSize + part.actualSize.toInt)
      if offset < partPlaintextEnd then
        coveringPlan offset endPlaintext cumulativePlaintextSize cumulativeEncryptedSize partIndex
          (part :: rest)
      else
        let size ← checkedI64 part.size.toNat
        let cumulativeEncryptedSize ← checkedI64 (cumulativeEncryptedSize + size)
        seekPart offset endPlaintext partPlaintextEnd cumulativeEncryptedSize (partIndex + 1) rest

def getLegacyEncryptedOffsets (oi : ObjectInfo) (offset length : Int) : Option EncryptedOffsets := do
  guard (0 ≤ offset ∧ 0 < length)
  let past ← checkedI64 (offset + length)
  let endPlaintext ← checkedI64 (past - 1)
  seekPart offset endPlaintext 0 0 0 oi.parts

def encryptedFrameLayoutFixed8kSuffix : String := "encrypted-frame-layout-fixed8k-v1"

def markersAgree (host : InfoHost) (suffix expected : String) :
    Option String → List (String × String) → Bool
  | value, [] => value = some expected
  | value, (key, candidate) :: entries =>
    if !hasInternalSuffix host.toPlatform key suffix then markersAgree host suffix expected value entries
    else if candidate.isEmpty || value.any (· ≠ candidate) then false
    else markersAgree host suffix expected (some candidate) entries

def hasEncryptedPartLayoutMarker (host : InfoHost) (metadata : Metadata) (suffix expected : String) :
    Bool :=
  markersAgree host suffix expected none (host.walk.enumerate metadata.entries)

/-- The marker carries the token of the data directory. -/
def layoutMarked (host : InfoHost) (oi : ObjectInfo) (suffix : String) : Bool :=
  match oi.dataDir.filter fun dataDir => !dataDir.isNil with
  | none => false
  | some dataDir =>
    hasEncryptedPartLayoutMarker host oi.userDefined suffix (host.uuidToString dataDir)

def v2FrameSeekEligible (host : InfoHost) (oi : ObjectInfo) (isMultipart isCompressed : Bool)
    (requestedLength : Int) (recordedPlaintextSize : Option Int) : Bool :=
  if isMultipart || isCompressed || requestedLength ≤ 0 || recordedPlaintextSize.isNone then false
  else layoutMarked host oi encryptedFrameLayoutFixed8kSuffix

/-- With the switch that `RUSTFS_ENCRYPTED_RANGE_SEEK` sets. -/
def legacyEncryptedSeekEligible (host : InfoHost) (seekEnabled : Bool) (oi : ObjectInfo)
    (isMultipart isCompressed : Bool) (requestedLength : Int) (recordedPlaintextSize : Option Int) :
    Bool :=
  if !seekEnabled || !isMultipart || isCompressed || requestedLength ≤ 0 || oi.parts = [] then false
  else
    match recordedPlaintextSize with
    | none => false
    | some recorded =>
      layoutMarked host oi encryptedPartLayoutQuorumSuffix &&
        legacyPartLayoutTotals oi.parts = some (oi.size.toInt, recorded)

structure EncryptedRangePlan where
  storageOffset : Nat
  storageLength : Int
  decryptSkip : Nat
  plaintextOffset : Nat
  plaintextLength : Int
  totalPlaintextSize : Nat
  sequenceNumber : Nat
  partNumbers : List Nat
  deriving DecidableEq

def multipartPartNumbers (parts : List ObjectPartInfo) : List Nat :=
  parts.map fun part => part.number.toNat

def usizeOrError (message : String) (value : Int) : Except String Nat :=
  match usizeFromI64 value with
  | some size => .ok size
  | none => .error (message ++ toString value)

def frameSeek (host : InfoHost) (oi : ObjectInfo) (isMultipart isCompressed : Bool)
    (requestedOffset : Nat) (requestedLength : Int) (recordedPlaintextSize : Option Int) :
    Option EncryptedOffsets := do
  guard (v2FrameSeekEligible host oi isMultipart isCompressed requestedLength
    recordedPlaintextSize = true)
  let recorded ← recordedPlaintextSize
  let offset ← checkedI64 requestedOffset
  getV2FrameOffsets oi offset requestedLength recorded

def partSeek (host : InfoHost) (seekEnabled : Bool) (oi : ObjectInfo) (isMultipart isCompressed : Bool)
    (requestedOffset : Nat) (requestedLength : Int) (recordedPlaintextSize : Option Int) :
    Option EncryptedOffsets := do
  guard (legacyEncryptedSeekEligible host seekEnabled oi isMultipart isCompressed requestedLength
    recordedPlaintextSize = true)
  let offset ← checkedI64 requestedOffset
  getLegacyEncryptedOffsets oi offset requestedLength

/-- Seeks to a frame or to a part where that is safe, and reads the whole object otherwise. -/
def legacyEncryptedRangePlan (host : InfoHost) (seekEnabled : Bool) (oi : ObjectInfo)
    (isMultipart isCompressed : Bool) (requestedOffset : Nat) (requestedLength : Int)
    (fullPlaintextSize : Nat) (recordedPlaintextSize : Option Int) :
    Except String EncryptedRangePlan :=
  match frameSeek host oi isMultipart isCompressed requestedOffset requestedLength
      recordedPlaintextSize with
  | some offsets => do
      let storageOffset ← usizeOrError "invalid v2 encrypted offset " offsets.storageOffset
      let totalPlaintextSize ←
        usizeOrError "invalid v2 remaining decrypted size " offsets.remainingPlaintext
      .ok ⟨storageOffset, offsets.storageLength, 0, offsets.plaintextSkip, requestedLength,
        totalPlaintextSize, offsets.start, []⟩
  | none =>
    match partSeek host seekEnabled oi isMultipart isCompressed requestedOffset requestedLength
        recordedPlaintextSize with
    | some offsets => do
        let storageOffset ← usizeOrError "invalid legacy encrypted offset " offsets.storageOffset
        let totalPlaintextSize ←
          usizeOrError "invalid legacy remaining decrypted size " offsets.remainingPlaintext
        .ok ⟨storageOffset, offsets.storageLength, 0, offsets.plaintextSkip, requestedLength,
          totalPlaintextSize, 0, multipartPartNumbers (oi.parts.drop offsets.start)⟩
    | none =>
      .ok ⟨0, oi.size.toInt, 0, requestedOffset, requestedLength, fullPlaintextSize, 0,
        multipartPartNumbers oi.parts⟩

variable {oi : ObjectInfo} {length offset : Int} {host : InfoHost}

section Window

variable {cipher : Cipher} {crc : Bytes → UInt32} {base : Nonce} {plaintext : Bytes} {index : Nat}
  {plan : EncryptedOffsets}

/-- Every ciphertext is followed by its tag. -/
def Tagged (cipher : Cipher) : Prop :=
  ∀ nonce aad block, (cipher.encrypt nonce aad block).length = block.length + 16

def frameStart (cipher : Cipher) (crc : Bytes → UInt32) (base : Nonce) (plaintext : Bytes)
    (index : Nat) : Nat :=
  (v2Frames cipher crc base plaintext index).length

theorem frame_length (tagged : Tagged cipher) (index : Nat) :
    (v2Frame cipher crc base plaintext index).length =
      8 + putUvarintLen (frameBlock plaintext index).length +
        ((frameBlock plaintext index).length + 16) := by
  have header (typeByte : UInt8) (block : Bytes) : (frameHeader crc typeByte block).length = 8 := rfl
  unfold v2Frame buildFrame
  rw [length_append, length_append, tagged _ _ _, header, Nat.add_assoc]
  rfl

theorem full_frame_length (tagged : Tagged cipher)
    (full : encryptionBlockSize * (index + 1) ≤ plaintext.length) :
    (v2Frame cipher crc base plaintext index).length = 8218 := by
  have block : (frameBlock plaintext index).length = 8192 := by
    unfold frameBlock encryptionBlockSize at *
    rw [length_take, length_drop]
    omega
  have varint : putUvarintLen 8192 = 2 := by decide
  rw [frame_length tagged, block, varint]

theorem frame_start_succ (index : Nat) :
    frameStart cipher crc base plaintext (index + 1) =
      frameStart cipher crc base plaintext index +
        (v2Frame cipher crc base plaintext index).length := by
  unfold frameStart
  rw [v2_frames_succ, length_append]

theorem frame_start_mono {left right : Nat} (order : left ≤ right) :
    frameStart cipher crc base plaintext left ≤ frameStart cipher crc base plaintext right :=
  (v2_frames_mono order).length_le

theorem frame_start_full (tagged : Tagged cipher)
    (full : encryptionBlockSize * index ≤ plaintext.length) :
    frameStart cipher crc base plaintext index = 8218 * index := by
  induction index with
  | zero => rfl
  | succ index ih =>
    have before : encryptionBlockSize * index ≤ plaintext.length :=
      (Nat.mul_le_mul_left _ (Nat.le_succ index)).trans full
    rw [frame_start_succ, ih before, full_frame_length tagged full]
    omega

theorem segment_length :
    (v2Segment cipher crc base plaintext).length =
      frameStart cipher crc base plaintext (finalIndex plaintext + 1) + 8 := by
  unfold v2Segment frameStart
  rw [length_append]
  rfl

theorem frame_stored (inside : index ≤ finalIndex plaintext) :
    v2Frame cipher crc base plaintext index <+:
      (v2Segment cipher crc base plaintext).drop (frameStart cipher crc base plaintext index) := by
  obtain ⟨rest, isRest⟩ := @v2_frames_mono cipher crc base plaintext _ _
    (Nat.add_le_add_right inside 1)
  unfold v2Segment frameStart
  rw [← isRest, v2_frames_succ, append_assoc, append_assoc, drop_left]
  exact prefix_append _ _

/-- A byte of the range is in the frame. -/
def FrameMeets (plaintext : Bytes) (offset length : Int) (index : Nat) : Prop :=
  ∃ place : Nat, offset ≤ place ∧ place < offset + length ∧ encryptionBlockSize * index ≤ place ∧
    place < encryptionBlockSize * index + (frameBlock plaintext index).length

/-- The window of stored bytes that belongs to a range of the plaintext. -/
structure RightWindow (cipher : Cipher) (crc : Bytes → UInt32) (base : Nonce)
    (plaintext stored : Bytes) (offset length : Int) (plan : EncryptedOffsets) : Prop where
  inside : 0 ≤ plan.storageOffset ∧ 0 < plan.storageLength ∧
    plan.storageOffset + plan.storageLength ≤ stored.length
  starts : plan.storageOffset = frameStart cipher crc base plaintext plan.start
  frame : v2Frame cipher crc base plaintext plan.start <+: stored.drop plan.storageOffset.toNat
  covers : ∀ index, FrameMeets plaintext offset length index →
    plan.storageOffset ≤ frameStart cipher crc base plaintext index ∧
      frameStart cipher crc base plaintext (index + 1) ≤ plan.storageOffset + plan.storageLength
  terminator : offset + length = plaintext.length →
    plan.storageOffset + plan.storageLength = stored.length
  skip : (encryptionBlockSize * plan.start + plan.plaintextSkip : Nat) = offset
  remaining : plan.remainingPlaintext = plaintext.length - (encryptionBlockSize * plan.start : Nat)

theorem v2_storage_end_cases {size endFrame totalFullFrames storageEnd : Int}
    (isEnd : v2StorageEnd size endFrame totalFullFrames = some storageEnd) :
    storageEnd = size ∧ totalFullFrames ≤ endFrame + 1 ∨
      endFrame + 1 < totalFullFrames ∧ storageEnd = min ((endFrame + 1) * v2FrameCiphertextLen) size := by
  unfold v2StorageEnd at isEnd
  simp only [Option.bind_eq_bind, Option.bind_eq_some_iff] at isEnd
  obtain ⟨following, isFollowing, isEnd⟩ := isEnd
  rw [checked_value isFollowing] at isEnd
  split at isEnd
  · rename_i below
    obtain ⟨full, isFull, isEnd⟩ := Option.bind_eq_some_iff.1 isEnd
    rw [checked_value isFull] at isEnd
    cases isEnd
    exact .inr ⟨below, rfl⟩
  · rename_i last
    cases isEnd
    exact .inl ⟨rfl, Int.not_lt.1 last⟩

theorem v2_frame_offsets_cases {plaintextSize : Int}
    (found : getV2FrameOffsets oi offset length plaintextSize = some plan) :
    0 ≤ offset ∧ 0 < length ∧ offset + length ≤ plaintextSize ∧
      ∃ storageEnd, v2StorageEnd oi.size.toInt ((offset + length - 1) / v2FramePlaintextLen)
          (plaintextSize / v2FramePlaintextLen) = some storageEnd ∧
        offset / v2FramePlaintextLen * v2FrameCiphertextLen < storageEnd ∧
        plan = ⟨offset / v2FramePlaintextLen * v2FrameCiphertextLen,
          storageEnd - offset / v2FramePlaintextLen * v2FrameCiphertextLen,
          (offset % v2FramePlaintextLen).toNat, (offset / v2FramePlaintextLen).toNat,
          plaintextSize - offset / v2FramePlaintextLen * v2FramePlaintextLen⟩ := by
  unfold getV2FrameOffsets at found
  simp only [Option.bind_eq_bind, Option.bind_eq_some_iff] at found
  obtain ⟨_, valid, past, isPast, last, isLast, _, inside, storageOffset, isOffset, _, _,
    storageEnd, isEnd, _, window, plaintextSkip, isSkip, framePlaintext, isFrame,
    remainingPlaintext, isRemaining, startingFrame, isStart, isPlan⟩ := found
  replace valid := (Option.guard_eq_some' ()).1 valid
  replace inside := (Option.guard_eq_some' ()).1 inside
  replace window := (Option.guard_eq_some' ()).1 window
  obtain rfl := checked_value isPast
  obtain rfl := checked_value isLast
  obtain rfl := checked_value isOffset
  obtain rfl := checked_value isFrame
  obtain rfl := checked_value isRemaining
  have skip : plaintextSkip = (offset % v2FramePlaintextLen).toNat := by
    unfold usizeFromI64 at isSkip
    split at isSkip
    · exact (Option.some.inj isSkip).symm
    · cases isSkip
  have start : startingFrame = (offset / v2FramePlaintextLen).toNat := by
    unfold u32FromI64 at isStart
    split at isStart
    · exact (Option.some.inj isStart).symm
    · cases isStart
  cases isPlan
  refine ⟨valid.1, valid.2.1, by omega, storageEnd, isEnd, window, ?_⟩
  rw [skip, start]

theorem frame_meets_between {offset length : Nat}
    (meeting : FrameMeets plaintext offset length index) :
    offset / encryptionBlockSize ≤ index ∧ index ≤ (offset + length - 1) / encryptionBlockSize ∧
      index ≤ finalIndex plaintext := by
  obtain ⟨place, fromOffset, toEnd, fromBlock, toBlock⟩ := meeting
  have block : (frameBlock plaintext index).length =
      min encryptionBlockSize (plaintext.length - encryptionBlockSize * index) := by
    unfold frameBlock
    rw [length_take, length_drop]
  unfold finalIndex encryptionBlockSize at *
  omega

theorem storage_end_right (tagged : Tagged cipher) {size storageEnd : Int} {offset length : Nat}
    (isSize : size = (v2Segment cipher crc base plaintext).length) (positive : 0 < length)
    (isEnd : v2StorageEnd size (((offset + length : Nat) - 1 : Int) / v2FramePlaintextLen)
      (plaintext.length / v2FramePlaintextLen) = some storageEnd) :
    storageEnd ≤ size ∧
      (∀ index, FrameMeets plaintext offset length index →
        frameStart cipher crc base plaintext (index + 1) ≤ storageEnd) ∧
      (offset + length = plaintext.length → storageEnd = size) := by
  have order {left right : Nat} (below : left ≤ right) :
      frameStart cipher crc base plaintext left ≤ frameStart cipher crc base plaintext right :=
    frame_start_mono below
  have whole := @segment_length cipher crc base plaintext
  rcases v2_storage_end_cases isEnd with ⟨rfl, reached⟩ | ⟨below, rfl⟩
  · refine ⟨Int.le_refl _, fun index meeting => ?_, fun _ => rfl⟩
    have inside := order (Nat.add_le_add_right (frame_meets_between meeting).2.2 1)
    omega
  · set past := (offset + length - 1) / encryptionBlockSize + 1 with isPast
    have isFrames : (((offset + length : Nat) - 1 : Int) / v2FramePlaintextLen + 1) = past := by
      rw [isPast]
      unfold v2FramePlaintextLen encryptionBlockSize
      omega
    rw [isFrames] at below ⊢
    have full : past < finalIndex plaintext := by
      unfold v2FramePlaintextLen at below
      unfold finalIndex encryptionBlockSize
      omega
    have stored : frameStart cipher crc base plaintext past = 8218 * past :=
      frame_start_full tagged ((Nat.mul_le_mul_left _ full.le).trans (Nat.mul_div_le _ _))
    have isCiphertext : (past : Int) * v2FrameCiphertextLen = (8218 * past : Nat) := by
      unfold v2FrameCiphertextLen v2FramePlaintextLen
      omega
    refine ⟨Int.min_le_right _ _, fun index meeting => ?_, fun ends => ?_⟩
    · have covered := order (Nat.add_le_add_right (frame_meets_between meeting).2.1 1)
      have inside := order (show past ≤ finalIndex plaintext + 1 by omega)
      rw [← isPast] at covered
      omega
    · unfold finalIndex encryptionBlockSize at full
      unfold encryptionBlockSize at isPast
      omega

theorem v2_window_right (tagged : Tagged cipher)
    (isSize : oi.size.toInt = (v2Segment cipher crc base plaintext).length)
    (found : getV2FrameOffsets oi offset length plaintext.length = some plan) :
    RightWindow cipher crc base plaintext (v2Segment cipher crc base plaintext) offset length plan := by
  obtain ⟨natural, positive, fits, storageEnd, isEnd, window, rfl⟩ := v2_frame_offsets_cases found
  obtain ⟨offset, rfl⟩ := Int.eq_ofNat_of_zero_le natural
  obtain ⟨length, rfl⟩ := Int.eq_ofNat_of_zero_le positive.le
  obtain ⟨bounded, covered, terminated⟩ := @storage_end_right cipher crc base plaintext tagged _ _
    offset length isSize (by omega) (by simpa using isEnd)
  rw [isSize] at bounded terminated
  set frame := offset / encryptionBlockSize with isFrame
  have isStart : ((offset : Int) / v2FramePlaintextLen).toNat = frame := by
    rw [isFrame]
    unfold v2FramePlaintextLen encryptionBlockSize
    omega
  have reached : encryptionBlockSize * frame ≤ offset := Nat.mul_div_le _ _
  have starts : (offset : Int) / v2FramePlaintextLen * v2FrameCiphertextLen =
      frameStart cipher crc base plaintext frame := by
    rw [frame_start_full tagged (by omega), isFrame]
    unfold v2FrameCiphertextLen v2FramePlaintextLen encryptionBlockSize
    omega
  have present : frame ≤ finalIndex plaintext := Nat.div_le_div_right (by omega)
  rw [starts] at window
  rw [isStart, starts]
  have isEndOf (start : Int) : start + (storageEnd - start) = storageEnd := by omega
  refine ⟨⟨by simp, by simpa using window, ?_⟩, rfl, ?_, ?_, ?_, ?_, ?_⟩
  · rw [isEndOf]
    exact bounded
  · exact frame_stored present
  · intro index meeting
    rw [isEndOf]
    exact ⟨Int.ofNat_le.2 (frame_start_mono (frame_meets_between meeting).1), covered index meeting⟩
  · intro ends
    rw [isEndOf]
    exact terminated (by exact_mod_cast ends)
  all_goals
    unfold v2FramePlaintextLen encryptionBlockSize at *
    dsimp only
    omega

end Window

def actualBefore (parts : List ObjectPartInfo) : Int :=
  (parts.map fun part => part.actualSize.toInt).sum

/-- A byte of the range is in the part. -/
def Meets (parts : List ObjectPartInfo) (offset length : Int) (place : Nat) : Prop :=
  place < parts.length ∧ ∃ byte : Int, offset ≤ byte ∧ byte < offset + length ∧
    actualBefore (parts.take place) ≤ byte ∧ byte < actualBefore (parts.take (place + 1))

/-- The stored bytes of the parts that meet a range of the plaintext. -/
structure RightSpan (parts : List ObjectPartInfo) (offset length : Int) (plan : EncryptedOffsets)
    (front covered back : List ObjectPartInfo) : Prop where
  isParts : parts = front ++ (covered ++ back)
  nonempty : covered ≠ []
  meeting : ∀ place, Meets parts offset length place ↔
    front.length ≤ place ∧ place < front.length + covered.length
  starts : plan.start = front.length
  storageOffset : plan.storageOffset = storedBefore front
  storageLength : plan.storageLength = storedBefore covered
  skip : plan.plaintextSkip = offset - actualBefore front
  remaining : plan.remainingPlaintext = actualBefore (covered ++ back)

section Span

theorem actual_before_cons (part : ObjectPartInfo) (parts : List ObjectPartInfo) :
    actualBefore (part :: parts) = part.actualSize.toInt + actualBefore parts := rfl

theorem actual_before_append (left right : List ObjectPartInfo) :
    actualBefore (left ++ right) = actualBefore left + actualBefore right := by
  unfold actualBefore
  rw [map_append, sum_append]

theorem stored_before_cons (part : ObjectPartInfo) (parts : List ObjectPartInfo) :
    storedBefore (part :: parts) = part.size.toNat + storedBefore parts := rfl

theorem stored_before_append (left right : List ObjectPartInfo) :
    storedBefore (left ++ right) = storedBefore left + storedBefore right := by
  unfold storedBefore
  rw [map_append, sum_append]

theorem stored_before_nonneg (parts : List ObjectPartInfo) : 0 ≤ storedBefore parts := by
  induction parts with
  | nil => exact Int.le_refl 0
  | cons part parts ih =>
    rw [stored_before_cons]
    omega

def Positive (parts : List ObjectPartInfo) : Prop := ∀ part ∈ parts, 0 < part.actualSize.toInt

theorem Positive.tail {part : ObjectPartInfo} {parts : List ObjectPartInfo}
    (positive : Positive (part :: parts)) : 0 < part.actualSize.toInt ∧ Positive parts :=
  ⟨positive part mem_cons_self, fun other member =>
    positive other (mem_cons_of_mem _ member)⟩

variable {parts : List ObjectPartInfo}

theorem Positive.nonneg (positive : Positive parts) : 0 ≤ actualBefore parts := by
  induction parts with
  | nil => exact Int.le_refl 0
  | cons part parts ih =>
    have own := positive.tail.1
    have rest := ih positive.tail.2
    rw [actual_before_cons]
    omega

/-- The first part that goes past the offset, and the first that goes past the last byte. -/
structure CoversRange (parts : List ObjectPartInfo) (offset last : Int)
    (front covered back : List ObjectPartInfo) : Prop where
  isParts : parts = front ++ (covered ++ back)
  reached : actualBefore front ≤ offset
  first : ∃ part rest, covered = part :: rest ∧ offset < actualBefore front + part.actualSize.toInt
  final : ∃ before part, covered = before ++ [part] ∧ actualBefore (front ++ before) ≤ last ∧
    last < actualBefore (front ++ covered)

/-! The loop over the parts that follow. -/

theorem scan_covered {coveredEnd physicalEnd remaining : Int}
    (last : Int) (positive : Positive parts) (natural : 0 ≤ remaining)
    (small : remaining + actualBefore parts < 2 ^ 63) :
    parts.foldlM (TailScan.take last) ⟨coveredEnd, physicalEnd, remaining, true⟩ =
      some ⟨coveredEnd, physicalEnd, remaining + actualBefore parts, true⟩ := by
  induction parts generalizing remaining with
  | nil =>
    simp [actualBefore]
  | cons part parts ih =>
    obtain ⟨own, others⟩ := positive.tail
    have rest := others.nonneg
    rw [actual_before_cons] at small ⊢
    have step : TailScan.take last ⟨coveredEnd, physicalEnd, remaining, true⟩ part =
        some ⟨coveredEnd, physicalEnd, remaining + part.actualSize.toInt, true⟩ := by
      unfold TailScan.take
      dsimp only
      rw [checked_i64 (by omega) (by omega)]
      rfl
    rw [foldlM_cons, step, Option.bind_eq_bind, Option.bind_some, ih others (by omega) (by omega),
      Int.add_assoc]

theorem scan_uncovered {coveredEnd physicalEnd remaining last : Int}
    (positive : Positive parts) (reached : coveredEnd ≤ last)
    (inside : last < coveredEnd + actualBefore parts) (natural : 0 ≤ remaining)
    (behind : remaining ≤ coveredEnd) (small : coveredEnd + actualBefore parts < 2 ^ 63)
    (stored : 0 ≤ physicalEnd) (fits : physicalEnd + storedBefore parts < 2 ^ 63) :
    ∃ covered back before part, parts = covered ++ back ∧ covered = before ++ [part] ∧
      coveredEnd + actualBefore before ≤ last ∧ last < coveredEnd + actualBefore covered ∧
      parts.foldlM (TailScan.take last) ⟨coveredEnd, physicalEnd, remaining, false⟩ =
        some ⟨coveredEnd + actualBefore covered, physicalEnd + storedBefore covered,
          remaining + actualBefore parts, true⟩ := by
  induction parts generalizing coveredEnd physicalEnd remaining with
  | nil =>
    unfold actualBefore at inside
    rw [map_nil, sum_nil] at inside
    omega
  | cons part parts ih =>
    obtain ⟨own, others⟩ := positive.tail
    have rest := others.nonneg
    have storedRest := stored_before_nonneg parts
    rw [actual_before_cons] at inside small
    rw [stored_before_cons] at fits
    have step : TailScan.take last ⟨coveredEnd, physicalEnd, remaining, false⟩ part =
        some ⟨coveredEnd + part.actualSize.toInt, physicalEnd + part.size.toNat,
          remaining + part.actualSize.toInt,
          decide (last < coveredEnd + part.actualSize.toInt)⟩ := by
      unfold TailScan.take
      dsimp only
      rw [checked_i64 (by omega) (by omega), checked_i64 (by omega) (by omega)]
      simp only [Option.bind_eq_bind, Option.bind_some]
      rw [checked_i64 (by omega) (by omega), checked_i64 (by omega) (by omega)]
      rfl
    rw [foldlM_cons, step, Option.bind_eq_bind, Option.bind_some, actual_before_cons]
    by_cases past : last < coveredEnd + part.actualSize.toInt
    · refine ⟨[part], parts, [], part, rfl, rfl, ?_, ?_, ?_⟩
      · simpa [actualBefore] using reached
      · simpa [actualBefore] using past
      · rw [decide_eq_true past, scan_covered last others (by omega) (by omega), Int.add_assoc]
        simp [actualBefore, storedBefore]
    · obtain ⟨covered, back, before, final, rfl, isFinal, notPast, ends, isScan⟩ :=
        @ih (coveredEnd + part.actualSize.toInt) (physicalEnd + part.size.toNat)
          (remaining + part.actualSize.toInt) others (by omega) (by omega) (by omega) (by omega)
          (by omega) (by omega) (by omega)
      refine ⟨part :: covered, back, part :: before, final, rfl, ?_, ?_, ?_, ?_⟩
      · rw [isFinal, cons_append]
      · rw [actual_before_cons]
        omega
      · rw [actual_before_cons]
        omega
      · rw [decide_eq_false past, isScan, actual_before_cons, stored_before_cons, Int.add_assoc,
          Int.add_assoc, Int.add_assoc]

/-! The loop that looks for the first part. -/

theorem covering_plan_first {part : ObjectPartInfo}
    {last plaintextSize encryptedSize : Int} (index : Nat)
    (positive : Positive (part :: parts)) (reached : plaintextSize ≤ offset)
    (first : offset < plaintextSize + part.actualSize.toInt) (order : offset ≤ last)
    (inside : last < plaintextSize + actualBefore (part :: parts)) (natural : 0 ≤ plaintextSize)
    (small : plaintextSize + actualBefore (part :: parts) < 2 ^ 63) (stored : 0 ≤ encryptedSize)
    (fits : encryptedSize + storedBefore (part :: parts) < 2 ^ 63) :
    ∃ covered back, CoversRange (part :: parts) (offset - plaintextSize) (last - plaintextSize) [] covered back ∧
      coveringPlan offset last plaintextSize encryptedSize index (part :: parts) =
        some ⟨encryptedSize, storedBefore covered, (offset - plaintextSize).toNat, index,
          actualBefore (covered ++ back)⟩ := by
  obtain ⟨covered, back, before, final, isParts, isFinal, notPast, ends, isScan⟩ :=
    scan_uncovered positive (reached.trans order) inside (Int.le_refl 0) natural small stored fits
  refine ⟨covered, back, ⟨isParts, by simpa [actualBefore] using reached, ?_, before, final, isFinal, ?_, ?_⟩, ?_⟩
  · cases covered with
    | nil => simp at isFinal
    | cons head rest =>
      obtain ⟨rfl, _⟩ := List.cons.inj isParts
      refine ⟨part, rest, rfl, ?_⟩
      unfold actualBefore
      rw [map_nil, sum_nil]
      omega
  · rw [nil_append]
    omega
  · rw [nil_append]
    omega
  · have spans : storedBefore (part :: parts) = storedBefore covered + storedBefore back := by
      rw [isParts, stored_before_append]
    have atLeast := stored_before_nonneg covered
    have others := stored_before_nonneg back
    have skip : usizeFromI64 (offset - plaintextSize) = some (offset - plaintextSize).toNat :=
      if_pos ⟨by omega, by omega⟩
    have length : encryptedSize + storedBefore covered - encryptedSize = storedBefore covered := by
      omega
    unfold coveringPlan
    rw [isScan]
    simp only [Option.bind_eq_bind, Option.bind_some, skip, length]
    rw [checked_i64 (by omega) (by omega), Int.zero_add, ← isParts]
    rfl

theorem seek_part_covers {parts : List ObjectPartInfo}
    {offset last plaintextSize encryptedSize : Int} {index : Nat} (positive : Positive parts)
    (reached : plaintextSize ≤ offset) (order : offset ≤ last)
    (inside : last < plaintextSize + actualBefore parts) (natural : 0 ≤ plaintextSize)
    (small : plaintextSize + actualBefore parts < 2 ^ 63) (stored : 0 ≤ encryptedSize)
    (fits : encryptedSize + storedBefore parts < 2 ^ 63) :
    ∃ front covered back,
      CoversRange parts (offset - plaintextSize) (last - plaintextSize) front covered back ∧
      seekPart offset last plaintextSize encryptedSize index parts =
        some ⟨encryptedSize + storedBefore front, storedBefore covered,
          (offset - plaintextSize - actualBefore front).toNat, index + front.length,
          actualBefore (covered ++ back)⟩ := by
  induction parts generalizing plaintextSize encryptedSize index with
  | nil =>
    unfold actualBefore at inside
    rw [map_nil, sum_nil] at inside
    omega
  | cons part parts ih =>
    obtain ⟨own, others⟩ := positive.tail
    have rest := others.nonneg
    have storedRest := stored_before_nonneg parts
    have whole := actual_before_cons part parts
    have wholeStored := stored_before_cons part parts
    rw [seekPart, checked_i64 (by omega) (by omega), Option.bind_eq_bind, Option.bind_some]
    by_cases first : offset < plaintextSize + part.actualSize.toInt
    · obtain ⟨covered, back, covers, isPlan⟩ := covering_plan_first index positive reached first
        order inside natural small stored fits
      refine ⟨[], covered, back, covers, ?_⟩
      rw [if_pos first, isPlan]
      simp [actualBefore, storedBefore]
    · obtain ⟨front, covered, back, covers, isPlan⟩ := @ih (plaintextSize + part.actualSize.toInt)
        (encryptedSize + part.size.toNat) (index + 1) others (by omega) (by omega) (by omega)
        (by omega) (by omega) (by omega)
      obtain ⟨head, tail, isCovered, within⟩ := covers.first
      obtain ⟨before, final, isFinal, notPast, ends⟩ := covers.final
      have reachedFront := covers.reached
      have frontWhole := actual_before_cons part front
      refine ⟨part :: front, covered, back, ⟨?_, by omega, ⟨head, tail, isCovered, by omega⟩,
        before, final, isFinal, ?_, ?_⟩, ?_⟩
      · rw [covers.isParts, cons_append]
      · rw [cons_append, actual_before_cons]
        omega
      · rw [cons_append, actual_before_cons]
        omega
      · rw [if_neg first, checked_i64 (by omega) (by omega), Option.bind_some,
          checked_i64 (by omega) (by omega), Option.bind_some, isPlan, stored_before_cons,
          frontWhole, length_cons]
        simp only [Option.some.injEq, EncryptedOffsets.mk.injEq, true_and, and_true]
        omega

/-! The parts that the range meets. -/

theorem before_mono (positive : Positive parts) {left right : Nat}
    (order : left ≤ right) : actualBefore (parts.take left) ≤ actualBefore (parts.take right) := by
  have split : parts.take right = parts.take left ++ (parts.take right).drop left := by
    conv_lhs => rw [← take_append_drop left (parts.take right)]
    rw [take_take, Nat.min_eq_left order]
  have others : Positive ((parts.take right).drop left) := fun part member =>
    positive part (mem_of_mem_take (mem_of_mem_drop member))
  have rest := others.nonneg
  rw [split, actual_before_append]
  omega

theorem actual_before_succ (positive : Positive parts) {place : Nat}
    (inside : place < parts.length) :
    actualBefore (parts.take place) < actualBefore (parts.take (place + 1)) := by
  have own := positive parts[place] (getElem_mem inside)
  rw [take_succ_eq_append_getElem inside, actual_before_append, actual_before_cons]
  unfold actualBefore
  rw [map_nil, sum_nil]
  omega

theorem meets_iff (positive : Positive parts) (asked : 0 < length) (place : Nat) :
    Meets parts offset length place ↔ place < parts.length ∧
      actualBefore (parts.take place) < offset + length ∧
      offset < actualBefore (parts.take (place + 1)) := by
  constructor
  · intro ⟨inside, byte, fromOffset, toEnd, fromPart, toPart⟩
    exact ⟨inside, by omega, by omega⟩
  · intro ⟨inside, before, past⟩
    have own := actual_before_succ positive inside
    refine ⟨inside, max offset (actualBefore (parts.take place)), ?_⟩
    omega

theorem covers_meets {parts front covered back : List ObjectPartInfo}
    (positive : Positive parts) (asked : 0 < length)
    (covers : CoversRange parts offset (offset + length - 1) front covered back) (place : Nat) :
    Meets parts offset length place ↔
      front.length ≤ place ∧ place < front.length + covered.length := by
  obtain ⟨head, tail, isCovered, within⟩ := covers.first
  obtain ⟨before, final, isFinal, notPast, ends⟩ := covers.final
  have reached := covers.reached
  have isParts := covers.isParts
  have inside : front.length + covered.length ≤ parts.length := by
    rw [isParts, length_append, length_append]
    omega
  have atFront : actualBefore (parts.take front.length) = actualBefore front := by
    rw [isParts, take_left]
  have atFirst : actualBefore (parts.take (front.length + 1)) =
      actualBefore front + head.actualSize.toInt := by
    rw [isParts, isCovered, cons_append, take_length_add_append, actual_before_append]
    simp [actualBefore]
  have atFinal : actualBefore (parts.take (front.length + before.length)) =
      actualBefore (front ++ before) := by
    rw [isParts, isFinal, append_assoc, take_length_add_append, take_left]
  have atEnd : actualBefore (parts.take (front.length + covered.length)) =
      actualBefore (front ++ covered) := by
    rw [isParts, take_length_add_append, take_left]
  have counted : covered.length = before.length + 1 := by
    rw [isFinal, length_append, length_singleton]
  rw [meets_iff positive asked]
  constructor
  · intro ⟨_, starts, past⟩
    constructor
    · by_contra early
      have order := before_mono positive (show place + 1 ≤ front.length by omega)
      omega
    · by_contra late
      have order := before_mono positive (show front.length + covered.length ≤ place by omega)
      omega
  · intro ⟨from', to'⟩
    have first := before_mono positive (show front.length + 1 ≤ place + 1 by omega)
    have last := before_mono positive (show place ≤ front.length + before.length by omega)
    exact ⟨by omega, by omega, by omega⟩

theorem legacy_span_right {oi : ObjectInfo} {offset length : Int} (positive : Positive oi.parts)
    (natural : 0 ≤ offset) (asked : 0 < length) (inside : offset + length ≤ actualBefore oi.parts)
    (small : actualBefore oi.parts < 2 ^ 63) (fits : storedBefore oi.parts < 2 ^ 63) :
    ∃ plan front covered back, getLegacyEncryptedOffsets oi offset length = some plan ∧
      RightSpan oi.parts offset length plan front covered back := by
  obtain ⟨front, covered, back, covers, isPlan⟩ := @seek_part_covers oi.parts offset
    (offset + length - 1) 0 0 0 positive natural (by omega) (by omega) (Int.le_refl 0) (by omega)
    (Int.le_refl 0) (by omega)
  rw [Int.sub_zero, Int.sub_zero] at covers
  have reached := covers.reached
  have valid : (guard (0 ≤ offset ∧ 0 < length) : Option Unit) = some () :=
    (Option.guard_eq_some' ()).2 ⟨natural, asked⟩
  have nonempty : covered ≠ [] := by
    obtain ⟨head, tail, isCovered, _⟩ := covers.first
    rw [isCovered]
    exact cons_ne_nil _ _
  refine ⟨⟨0 + storedBefore front, storedBefore covered, (offset - 0 - actualBefore front).toNat,
    0 + front.length, actualBefore (covered ++ back)⟩, front, covered, back, ?_, covers.isParts,
    nonempty, covers_meets positive asked covers, Nat.zero_add _, Int.zero_add _, rfl, ?_, rfl⟩
  · unfold getLegacyEncryptedOffsets
    rw [valid, checked_i64 (by omega) (by omega)]
    simp only [Option.bind_eq_bind, Option.bind_some]
    rw [checked_i64 (by omega) (by omega), Option.bind_some, isPlan]
  · dsimp only
    omega

theorem fold_layout {start totals : Int × Int}
    (folded : parts.foldlM addPartLayout start = some totals) :
    Positive parts ∧ totals.1 = start.1 + storedBefore parts ∧
      totals.2 = start.2 + actualBefore parts := by
  induction parts generalizing start with
  | nil =>
    cases folded
    refine ⟨fun _ member => (nomatch member), ?_, ?_⟩
    · simp [storedBefore]
    · simp [actualBefore]
  | cons part parts ih =>
    rw [foldlM_cons, Option.bind_eq_bind, Option.bind_eq_some_iff] at folded
    obtain ⟨next, isNext, rest⟩ := folded
    unfold addPartLayout at isNext
    simp only [Option.bind_eq_bind, Option.bind_eq_some_iff] at isNext
    obtain ⟨size, isSize, _, own, physical, isPhysical, plaintext, isPlaintext, isNext⟩ := isNext
    replace own := (Option.guard_eq_some' ()).1 own
    obtain rfl := checked_value isSize
    obtain rfl := checked_value isPhysical
    obtain rfl := checked_value isPlaintext
    cases isNext
    obtain ⟨others, stored, actual⟩ := ih rest
    refine ⟨fun other member => ?_, ?_, ?_⟩
    · rcases mem_cons.1 member with rfl | later
      · exact own
      · exact others other later
    · rw [stored, stored_before_cons, Int.add_assoc]
    · rw [actual, actual_before_cons, Int.add_assoc]

end Span

theorem eligible_cases {seekEnabled isMultipart isCompressed : Bool} {recorded : Int}
    (eligible : legacyEncryptedSeekEligible host seekEnabled oi isMultipart isCompressed length
      (some recorded) = true) :
    isMultipart = true ∧ 0 < length ∧
      oi.parts.foldlM addPartLayout (0, 0) = some (oi.size.toInt, recorded) := by
  unfold legacyEncryptedSeekEligible at eligible
  split at eligible
  · cases eligible
  · rename_i open'
    simp only [Bool.or_eq_true, Bool.not_eq_eq_eq_not, Bool.not_true, decide_eq_true_eq, not_or,
      Bool.not_eq_false, Bool.not_eq_true, Int.not_le] at open'
    obtain ⟨⟨⟨⟨_, isMultipart⟩, _⟩, asked⟩, someParts⟩ := open'
    rw [Bool.and_eq_true, decide_eq_true_eq, legacyPartLayoutTotals, if_neg someParts] at eligible
    exact ⟨isMultipart, asked, eligible.2⟩

/-- Whenever the part seek is eligible, the plan reads the parts that meet the range and no others. -/
theorem eligible_plan_right {seekEnabled isMultipart isCompressed : Bool}
    {offset : Nat} {recorded : Int64} (fullPlaintextSize : Nat)
    (eligible : legacyEncryptedSeekEligible host seekEnabled oi isMultipart isCompressed length
      (some recorded.toInt) = true) (inside : offset + length ≤ recorded.toInt) :
    ∃ offsets front covered back, RightSpan oi.parts offset length offsets front covered back ∧
      legacyEncryptedRangePlan host seekEnabled oi isMultipart isCompressed offset length
          fullPlaintextSize (some recorded.toInt) =
        .ok ⟨(storedBefore front).toNat, storedBefore covered, 0, offsets.plaintextSkip, length,
          (actualBefore (covered ++ back)).toNat, 0, multipartPartNumbers (covered ++ back)⟩ := by
  obtain ⟨multipart, asked, totals⟩ := eligible_cases eligible
  obtain ⟨positive, stored, actual⟩ := fold_layout totals
  have recordedSmall := recorded.toInt_lt
  have sizeSmall := oi.size.toInt_lt
  obtain ⟨offsets, front, covered, back, found, right⟩ := @legacy_span_right oi offset length
    positive (Int.natCast_nonneg _) asked (by omega) (by omega) (by omega)
  have noFrame : frameSeek host oi isMultipart isCompressed offset length (some recorded.toInt) =
      none := by
    unfold frameSeek v2FrameSeekEligible
    rw [multipart]
    rfl
  have isSeek : partSeek host seekEnabled oi isMultipart isCompressed offset length
      (some recorded.toInt) = some offsets := by
    unfold partSeek
    rw [(Option.guard_eq_some' ()).2 eligible, Option.bind_eq_bind, Option.bind_some,
      checked_i64 (by omega) (by omega), Option.bind_eq_bind, Option.bind_some, found]
  have others : Positive (covered ++ back) := fun part member =>
    positive part (by rw [right.isParts]; exact mem_append_right _ member)
  have frontPositive : Positive front := fun part member =>
    positive part (by rw [right.isParts]; exact mem_append_left _ member)
  have usize (message : String) {value : Int} (natural : 0 ≤ value) (small : value < 2 ^ 63) :
      usizeOrError message value = .ok value.toNat := by
    unfold usizeOrError usizeFromI64
    rw [if_pos ⟨natural, small⟩]
  refine ⟨offsets, front, covered, back, right, ?_⟩
  have parted := congrArg storedBefore right.isParts
  have partedActual := congrArg actualBefore right.isParts
  have behindNatural := stored_before_nonneg (covered ++ back)
  have frontNatural := stored_before_nonneg front
  have actualNatural := others.nonneg
  have actualFront := frontPositive.nonneg
  rw [actual_before_append] at partedActual
  rw [stored_before_append] at parted
  unfold legacyEncryptedRangePlan
  rw [noFrame, isSeek]
  dsimp only
  rw [right.storageOffset, right.remaining, usize _ frontNatural (by omega),
    usize _ actualNatural (by omega), right.storageLength, right.starts, right.isParts, drop_left]
  rfl

/-- Ranges of an encrypted plaintext: what a plan over frames addresses of the bytes that the writer
put out, and what a plan over parts addresses of a table of parts. -/
theorem encrypted_ranges_right {plaintextSize : Int64} {offset length : Int} (natural : 0 ≤ offset)
    (asked : 1 ≤ length) (inside : offset + length ≤ plaintextSize.toInt) :
    (∀ (cipher : Cipher) (crc : Bytes → UInt32) (base : Nonce) (plaintext : Bytes)
        (schedule : List InnerPoll) (rooms : List Nat) (oi : ObjectInfo) (plan : EncryptedOffsets),
      let run := WriterRun.polls cipher crc ⟨.newV2 base, plaintext, schedule, []⟩ rooms
      Tagged cipher → (plaintext.length : Int) = plaintextSize.toInt →
      run.reader.finished = true → run.reader.buffer = [] → oi.size.toInt = run.output.length →
      getV2FrameOffsets oi offset length plaintextSize.toInt = some plan →
      RightWindow cipher crc base plaintext run.output offset length plan) ∧
    ∀ oi : ObjectInfo, Positive oi.parts → actualBefore oi.parts = plaintextSize.toInt →
      storedBefore oi.parts = oi.size.toInt →
      ∃ plan front covered back, getLegacyEncryptedOffsets oi offset length = some plan ∧
        RightSpan oi.parts offset length plan front covered back := by
  constructor
  · intro cipher crc base plaintext schedule rooms oi plan run tagged isPlaintext finished drained
      isSize found
    have writes : Writes cipher crc base plaintext run := polls_write schedule rooms
    have written : run.output = v2Segment cipher crc base plaintext := by
      have whole := writes.finished finished
      rwa [drained, append_nil] at whole
    rw [written] at isSize ⊢
    rw [← isPlaintext] at found
    exact v2_window_right tagged isSize found
  · intro oi positive isPlaintext isSize
    have small := plaintextSize.toInt_lt
    have fits := oi.size.toInt_lt
    exact legacy_span_right positive natural (by omega) (by omega) (by omega) (by omega)

/-! A plaintext of three bytes, in one frame and in three parts. -/

def plainTagCipher : Cipher where
  encrypt _ _ block := block ++ List.replicate 16 0
  decrypt _ _ ciphertext := some (ciphertext.take (ciphertext.length - 16))

def zeroBase : Nonce := ⟨List.replicate 12 0, rfl⟩

def sizedPart (number size : UInt64) (actualSize : Int64) : ObjectPartInfo :=
  { ObjectPartInfo.default with number := number, size := size, actualSize := actualSize }

def storedInfo (size : Int64) (parts : List ObjectPartInfo) : ObjectInfo where
  versionId := none
  dataDir := none
  deleteMarker := false
  modTime := none
  size := size
  parts := parts
  userTags := ""
  expires := none
  etag := none
  userDefined := ⟨[], List.Pairwise.nil⟩
  transitionedObject := ⟨"", "", "", false, ""⟩
  transitionVersionState := .unknown
  checksum := none
  storageClass := ""
  replicationStatusInternal := none
  replicationStatus := .empty
  versionPurgeStatusInternal := none
  versionPurgeStatus := .empty

def threeParts : ObjectInfo := storedInfo 36 [sizedPart 1 10 1, sizedPart 2 20 1, sizedPart 3 6 1]

theorem last_bytes_planned :
    getLegacyEncryptedOffsets threeParts 1 2 = some ⟨10, 26, 0, 1, 2⟩ ∧
      RightWindow plainTagCipher (fun _ => 0) zeroBase [1, 2, 3]
        (WriterRun.polls plainTagCipher (fun _ => 0)
          ⟨.newV2 zeroBase, [1, 2, 3], [.ready 10, .ready 0], []⟩ [100]).output 1 2
        ⟨0, 36, 1, 0, 3⟩ ∧
      ∃ plan front covered back, getLegacyEncryptedOffsets threeParts 1 2 = some plan ∧
        RightSpan threeParts.parts 1 2 plan front covered back := by
  have planned := @encrypted_ranges_right 3 1 2 (by decide) (by decide) (by decide)
  refine ⟨by decide, ?_, planned.2 threeParts ?_ (by decide) (by decide)⟩
  · refine planned.1 plainTagCipher (fun _ => 0) zeroBase [1, 2, 3] [.ready 10, .ready 0] [100]
      threeParts ⟨0, 36, 1, 0, 3⟩ ?_ (by decide) (by decide) (by decide) (by decide) (by decide)
    intro nonce aad block
    exact length_append.trans (by rw [length_replicate])
  · intro part member
    simp only [threeParts, storedInfo, mem_cons, not_mem_nil, or_false] at member
    rcases member with rfl | rfl | rfl <;> decide

def markedHost : InfoHost := ⟨.sample, fun _ => none, fun _ => none, fun _ => "token"⟩

def markedParts : ObjectInfo :=
  { threeParts with
    dataDir := some 1
    userDefined := ⟨[("x-rustfs-internal-" ++ encryptedPartLayoutQuorumSuffix, "token")], by simp⟩ }

theorem last_parts_planned :
    legacyEncryptedSeekEligible markedHost true markedParts true false 2 (some 3) = true ∧
      ∃ offsets front covered back, RightSpan markedParts.parts 1 2 offsets front covered back ∧
        legacyEncryptedRangePlan markedHost true markedParts true false 1 2 3 (some 3) =
          .ok ⟨(storedBefore front).toNat, storedBefore covered, 0, offsets.plaintextSkip, 2,
            (actualBefore (covered ++ back)).toNat, 0, multipartPartNumbers (covered ++ back)⟩ := by
  have eligible : legacyEncryptedSeekEligible markedHost true markedParts true false 2 (some 3) =
      true := by
    decide +kernel
  exact ⟨eligible, @eligible_plan_right markedParts 2 markedHost true true false 1 3 3 eligible
    (by decide)⟩

end Rustfs.Ecstore
