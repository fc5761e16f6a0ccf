import Rustfs.Library.MessagePack
import Rustfs.Rio.CompressIndex

/-!
# Frames of an encrypted stream

Nonces, headers and frames of `rio/src/encrypt_reader.rs`, with the cipher and the checksum of a
plaintext as parameters. The writer of v1 frames and an error of the cipher are left out.
-/

namespace Rustfs.Rio

open List Library
open Library.ByteReader (Bytes)
open Library.MessagePack (beBytes beNat)

def encryptionBlockSize : Nat := 8192

def frameTypeV1 : UInt8 := 0x00

def frameTypeV2 : UInt8 := 0x01

def frameTypeV2Final : UInt8 := 0x02

def frameTypeEnd : UInt8 := 0xFF

structure Nonce where
  bytes : Bytes
  length : bytes.length = 12
  deriving DecidableEq

/-- The four bytes from `start` on, as a number. -/
def Nonce.word (nonce : Nonce) (start : Nat) : Nat := beNat ((nonce.bytes.drop start).take 4)

variable {start : Nat} {base : Nonce} {plaintext : Bytes} {index : Nat}

theorem offset_length {bytes : Bytes} (length : bytes.length = 12)
    (inside : start + 4 ≤ 12) (word : Nat) :
    (bytes.take start ++ beBytes 4 word ++ bytes.drop (start + 4)).length = 12 := by
  simp only [length_append, length_take, length_drop, MessagePack.be_bytes_length]
  omega

def deriveNonceOffset (base : Nonce) (start : Nat) (inside : start + 4 ≤ 12) (offset : Nat) : Nonce :=
  let next := (base.word start + offset) % 2 ^ 32
  ⟨base.bytes.take start ++ beBytes 4 next ++ base.bytes.drop (start + 4),
    offset_length base.length inside next⟩

def deriveBlockNonce (base : Nonce) (blockIndex : Nat) : Nonce :=
  deriveNonceOffset base 8 (Nat.le_refl 12) blockIndex

def derivePartNonce (base : Nonce) (partNumber : Nat) : Nonce :=
  deriveNonceOffset base 4 (Nat.le_add_right 8 4) partNumber

/-- Of streams that were written before part numbers had a field of their own. -/
def deriveLegacyPartNonce (base : Nonce) (partNumber : Nat) : Nonce :=
  deriveNonceOffset base 8 (Nat.le_refl 12) partNumber

theorem word_derived (base : Nonce) (inside : start + 4 ≤ 12) (offset : Nat) :
    (deriveNonceOffset base start inside offset).word start =
      (base.word start + offset) % 2 ^ 32 := by
  have front : (base.bytes.take start).length = start := by
    rw [length_take, base.length]
    omega
  unfold deriveNonceOffset Nonce.word
  dsimp only
  rw [append_assoc, drop_append_of_le_length front.ge, drop_of_length_le front.le,
    nil_append, take_left' (MessagePack.be_bytes_length 4 _)]
  have fits : (beNat ((base.bytes.drop start).take 4) + offset) % 2 ^ 32 < 256 ^ 4 :=
    Nat.mod_lt _ (by decide)
  exact MessagePack.be_nat_be_bytes fits

theorem word_block_derived (base : Nonce) (blockIndex : Nat) :
    (deriveBlockNonce base blockIndex).word 4 = base.word 4 := by
  have front : (base.bytes.take 8).length = 8 := by
    rw [length_take, base.length]
    rfl
  unfold deriveBlockNonce deriveNonceOffset Nonce.word
  dsimp only
  rw [append_assoc, drop_append_of_le_length (by omega), take_append_of_le_length]
  · rw [drop_take, take_take]
    rfl
  · rw [length_drop, front]

theorem same_offset {word left right : Nat}
    (same : (word + left) % 2 ^ 32 = (word + right) % 2 ^ 32) : left % 2 ^ 32 = right % 2 ^ 32 := by
  omega

theorem block_nonce_block {left right : Nat}
    (same : deriveBlockNonce base left = deriveBlockNonce base right) :
    left % 2 ^ 32 = right % 2 ^ 32 := by
  have words := congrArg (fun nonce => nonce.word 8) same
  unfold deriveBlockNonce at words
  simp only [word_derived] at words
  exact same_offset words

theorem block_nonce_part {left right leftBlock rightBlock : Nat}
    (same : deriveBlockNonce (derivePartNonce base left) leftBlock =
      deriveBlockNonce (derivePartNonce base right) rightBlock) :
    left % 2 ^ 32 = right % 2 ^ 32 := by
  have words := congrArg (fun nonce => nonce.word 4) same
  simp only [word_block_derived] at words
  unfold derivePartNonce at words
  simp only [word_derived] at words
  exact same_offset words

def leBytes (width n : Nat) : Bytes :=
  (List.range width).map fun place => UInt8.ofNat (n / 256 ^ place)

def putUvarint (x : Nat) : Bytes := (Varint.encode 10 x).getD []

def putUvarintLen (x : Nat) : Nat := (putUvarint x).length

/-- Associated data of a v2 frame: the bytes of the header and the index of the frame. -/
structure FrameAad where
  header : Bytes
  blockIndex : Nat
  deriving DecidableEq

/-- Without associated data for v1 frames. -/
structure Cipher where
  encrypt : Nonce → Option FrameAad → Bytes → Bytes
  decrypt : Nonce → Option FrameAad → Bytes → Option Bytes

def v2FrameAad (header : Bytes) (blockIndex : Nat) : FrameAad := ⟨header, blockIndex⟩

def frameHeader (crc : Bytes → UInt32) (typeByte : UInt8) (plaintext : Bytes) : Bytes :=
  let clen := putUvarintLen plaintext.length + plaintext.length + 16 + 4
  typeByte :: (leBytes 3 clen ++ leBytes 4 (crc plaintext).toNat)

def frameAad (typeByte : UInt8) (header : Bytes) (blockIndex : Nat) : Option FrameAad :=
  if typeByte = frameTypeV1 then none else some (v2FrameAad header blockIndex)

def buildFrame (cipher : Cipher) (crc : Bytes → UInt32) (nonce : Nonce) (typeByte : UInt8)
    (blockIndex : Nat) (plaintext : Bytes) : Bytes :=
  let header := frameHeader crc typeByte plaintext
  header ++ (putUvarint plaintext.length ++
    cipher.encrypt nonce (frameAad typeByte header blockIndex) plaintext)

def endHeader : Bytes := [frameTypeEnd, 0, 0, 0, 0, 0, 0, 0]

def frameBlock (plaintext : Bytes) (index : Nat) : Bytes :=
  (plaintext.drop (encryptionBlockSize * index)).take encryptionBlockSize

/-- Only the last frame is shorter than a block. -/
def frameType (plaintext : Bytes) (index : Nat) : UInt8 :=
  if encryptionBlockSize * (index + 1) ≤ plaintext.length then frameTypeV2 else frameTypeV2Final

def finalIndex (plaintext : Bytes) : Nat := plaintext.length / encryptionBlockSize

def v2Frame (cipher : Cipher) (crc : Bytes → UInt32) (base : Nonce) (plaintext : Bytes)
    (index : Nat) : Bytes :=
  buildFrame cipher crc (deriveBlockNonce base index) (frameType plaintext index) index
    (frameBlock plaintext index)

def v2Frames (cipher : Cipher) (crc : Bytes → UInt32) (base : Nonce) (plaintext : Bytes)
    (count : Nat) : Bytes :=
  ((List.range count).map (v2Frame cipher crc base plaintext)).flatten

/-- The whole segment: all frames and the terminator. -/
def v2Segment (cipher : Cipher) (crc : Bytes → UInt32) (base : Nonce) (plaintext : Bytes) : Bytes :=
  v2Frames cipher crc base plaintext (finalIndex plaintext + 1) ++ endHeader

theorem v2_frames_succ (cipher : Cipher) (crc : Bytes → UInt32) (base : Nonce) (plaintext : Bytes)
    (count : Nat) :
    v2Frames cipher crc base plaintext (count + 1) =
      v2Frames cipher crc base plaintext count ++ v2Frame cipher crc base plaintext count := by
  unfold v2Frames
  rw [range_succ, map_append, flatten_append, map_singleton, flatten_singleton]

theorem frame_type_final (last : plaintext.length < encryptionBlockSize * (index + 1)) :
    frameType plaintext index = frameTypeV2Final := if_neg (Nat.not_le.2 last)

theorem frame_type_full (full : encryptionBlockSize * (index + 1) ≤ plaintext.length) :
    frameType plaintext index = frameTypeV2 := if_pos full

/-- What an inner reader answers when it is polled. `ready` stands for one byte and up to `more`
others, as far as they are asked for and there; without any byte it is the end. -/
inductive InnerPoll
  | pending
  | ready (more : Nat)
  | failed (error : IoError)

def received (more wanted : Nat) (unread : Bytes) : Bytes := unread.take (min (more + 1) wanted)

theorem received_append (more wanted : Nat) (unread : Bytes) :
    received more wanted unread ++ unread.drop (received more wanted unread).length = unread :=
  prefix_iff_eq_append.1 (List.take_prefix _ unread)

theorem received_length_le (more wanted : Nat) (unread : Bytes) :
    (received more wanted unread).length ≤ wanted :=
  (length_take_le _ unread).trans (Nat.min_le_right _ _)

theorem received_nothing {more wanted : Nat} {unread : Bytes} (asked : 0 < wanted)
    (nothing : received more wanted unread = []) : unread = [] := by
  rcases take_eq_nil_iff.1 nothing with zero | empty
  · omega
  · exact empty

inductive Polled
  | pending
  | ready (bytes : Bytes)
  | failed (error : IoError)

structure EncryptReader where
  baseNonce : Nonce
  buffer : Bytes
  blockIndex : Nat
  finished : Bool
  pending : Bytes
  inputDone : Bool

namespace EncryptReader

def newV2 (nonce : Nonce) : EncryptReader := ⟨nonce, [], 0, false, [], false⟩

/-- The frame of the block that was accumulated. -/
def sealBlock (cipher : Cipher) (crc : Bytes → UInt32) (reader : EncryptReader) : EncryptReader :=
  let isFinal := reader.inputDone && decide (reader.pending.length < encryptionBlockSize)
  let typeByte := if isFinal then frameTypeV2Final else frameTypeV2
  let out := buildFrame cipher crc (deriveBlockNonce reader.baseNonce reader.blockIndex) typeByte
    reader.blockIndex reader.pending
  { reader with
    buffer := if isFinal then out ++ endHeader else out
    finished := reader.finished || isFinal
    pending := []
    blockIndex := reader.blockIndex + 1 }

/-- The bytes that the inner reader gave; none at its end. -/
def accumulate (reader : EncryptReader) (bytes : Bytes) : EncryptReader :=
  if bytes = [] then { reader with inputDone := true }
  else { reader with pending := reader.pending ++ bytes }

/-- The reader that serves a poll without asking the inner reader: from its buffer, at the end, or
with the frame of a block that is complete. -/
def unasked (cipher : Cipher) (crc : Bytes → UInt32) (reader : EncryptReader) : Option EncryptReader :=
  if reader.buffer ≠ [] ∨ reader.finished then some reader
  else if reader.inputDone ∨ encryptionBlockSize ≤ reader.pending.length then
    some (reader.sealBlock cipher crc)
  else none

end EncryptReader

/-- A writer, what its inner reader still has and will answer, and what was put out. -/
structure WriterRun where
  reader : EncryptReader
  unread : Bytes
  schedule : List InnerPoll
  output : Bytes

def WriterRun.serve (run : WriterRun) (room : Nat) : Polled × WriterRun :=
  (.ready (run.reader.buffer.take room),
    { run with
      reader := { run.reader with buffer := run.reader.buffer.drop room }
      output := run.output ++ run.reader.buffer.take room })

/-- `poll_read` with room for so many bytes. The loop takes one answer of the inner reader after
the other. -/
def WriterRun.pollAnswers (cipher : Cipher) (crc : Bytes → UInt32) (room : Nat) (reader : EncryptReader)
    (unread output : Bytes) : List InnerPoll → Polled × WriterRun
  | [] =>
    match reader.unasked cipher crc with
    | some reader => WriterRun.serve ⟨reader, unread, [], output⟩ room
    | none => (.pending, ⟨reader, unread, [], output⟩)
  | answer :: schedule =>
    match reader.unasked cipher crc with
    | some reader => WriterRun.serve ⟨reader, unread, answer :: schedule, output⟩ room
    | none =>
      match answer with
      | .pending => (.pending, ⟨reader, unread, schedule, output⟩)
      | .failed error => (.failed error, ⟨reader, unread, schedule, output⟩)
      | .ready more =>
        let bytes := received more (encryptionBlockSize - reader.pending.length) unread
        pollAnswers cipher crc room (reader.accumulate bytes) (unread.drop bytes.length)
          output schedule

def WriterRun.pollRead (cipher : Cipher) (crc : Bytes → UInt32) (run : WriterRun) (room : Nat) :
    Polled × WriterRun :=
  WriterRun.pollAnswers cipher crc room run.reader run.unread run.output run.schedule

def WriterRun.polls (cipher : Cipher) (crc : Bytes → UInt32) (run : WriterRun) (rooms : List Nat) :
    WriterRun :=
  rooms.foldl (fun run room => (run.pollRead cipher crc room).2) run

section Writer

variable {cipher : Cipher} {crc : Bytes → UInt32} {base : Nonce} {plaintext : Bytes}
  {schedule : List InnerPoll} {reader : EncryptReader} {unread output : Bytes}

/-- The frames so far are those of the plaintext, and what is accumulated comes next in it. -/
structure Writes (cipher : Cipher) (crc : Bytes → UInt32) (base : Nonce) (plaintext : Bytes)
    (run : WriterRun) : Prop where
  nonce : run.reader.baseNonce = base
  unfinished : run.reader.finished = false →
    run.output ++ run.reader.buffer = v2Frames cipher crc base plaintext run.reader.blockIndex ∧
    run.reader.pending ++ run.unread = plaintext.drop (encryptionBlockSize * run.reader.blockIndex) ∧
    encryptionBlockSize * run.reader.blockIndex ≤ plaintext.length
  bounded : run.reader.pending.length ≤ encryptionBlockSize
  done : run.reader.inputDone = true → run.unread = []
  finished : run.reader.finished = true →
    run.output ++ run.reader.buffer = v2Segment cipher crc base plaintext

theorem serve_writes {run : WriterRun} (writes : Writes cipher crc base plaintext run) (room : Nat) :
    Writes cipher crc base plaintext (run.serve room).2 := by
  have same : (run.serve room).2.output ++ (run.serve room).2.reader.buffer =
      run.output ++ run.reader.buffer := by
    unfold WriterRun.serve
    rw [append_assoc, take_append_drop]
  refine ⟨writes.nonce, fun going => ?_, writes.bounded, writes.done, fun ended => ?_⟩
  · rw [same]
    exact writes.unfinished going
  · rw [same]
    exact writes.finished ended

theorem seal_writes (writes : Writes cipher crc base plaintext ⟨reader, unread, schedule, output⟩)
    (empty : reader.buffer = []) (going : reader.finished = false)
    (ready : reader.inputDone = true ∨ encryptionBlockSize ≤ reader.pending.length) :
    Writes cipher crc base plaintext ⟨reader.sealBlock cipher crc, unread, schedule, output⟩ := by
  obtain ⟨frames, rest, reached⟩ := writes.unfinished going
  have nonce := writes.nonce
  dsimp only at frames rest reached nonce
  rw [empty, append_nil] at frames
  by_cases isFinal : reader.inputDone = true ∧ reader.pending.length < encryptionBlockSize
  · have drained := writes.done isFinal.1
    dsimp only at drained
    rw [drained, append_nil] at rest
    have last : plaintext.length < encryptionBlockSize * (reader.blockIndex + 1) := by
      have length := congrArg List.length rest
      rw [length_drop] at length
      rw [Nat.mul_succ]
      omega
    have isBlock : frameBlock plaintext reader.blockIndex = reader.pending := by
      unfold frameBlock
      rw [← rest, take_of_length_le isFinal.2.le]
    have isIndex : finalIndex plaintext = reader.blockIndex := by
      exact Nat.div_eq_of_lt_le (by rwa [Nat.mul_comm]) (by rwa [Nat.mul_comm])
    have flag : (reader.inputDone && decide (reader.pending.length < encryptionBlockSize)) = true := by
      simp [isFinal]
    refine ⟨nonce, fun going => ?_, Nat.zero_le _, writes.done, fun _ => ?_⟩
    · unfold EncryptReader.sealBlock at going
      simp [flag] at going
    · unfold EncryptReader.sealBlock v2Segment
      rw [flag, isIndex, v2_frames_succ, v2Frame, frame_type_final last, isBlock, ← frames, nonce]
      simp
  · have full : reader.pending.length = encryptionBlockSize := by
      have bounded := writes.bounded
      rcases ready with done | enough
      · exact Nat.le_antisymm bounded (Nat.not_lt.1 fun short => isFinal ⟨done, short⟩)
      · exact Nat.le_antisymm bounded enough
    have length := congrArg List.length rest
    rw [length_append, length_drop, full] at length
    have room : encryptionBlockSize * (reader.blockIndex + 1) ≤ plaintext.length := by
      rw [Nat.mul_succ]
      omega
    have isBlock : frameBlock plaintext reader.blockIndex = reader.pending := by
      unfold frameBlock
      rw [← rest, ← full, take_left]
    have flag : (reader.inputDone && decide (reader.pending.length < encryptionBlockSize)) = false := by
      simp [full]
    refine ⟨nonce, fun _ => ⟨?_, ?_, room⟩, Nat.zero_le _, writes.done, fun ended => ?_⟩
    · unfold EncryptReader.sealBlock
      rw [flag]
      rw [v2_frames_succ, v2Frame, frame_type_full room, isBlock, ← frames, nonce]
      simp
    · unfold EncryptReader.sealBlock
      rw [nil_append, Nat.mul_succ, ← drop_drop, ← rest, ← full, drop_left]
    · unfold EncryptReader.sealBlock at ended
      simp [flag, going] at ended

theorem unasked_writes {reader next : EncryptReader}
    (writes : Writes cipher crc base plaintext ⟨reader, unread, schedule, output⟩)
    (served : reader.unasked cipher crc = some next) :
    Writes cipher crc base plaintext ⟨next, unread, schedule, output⟩ := by
  unfold EncryptReader.unasked at served
  split at served
  · cases served
    exact writes
  · rename_i open'
    split at served
    · rename_i ready
      cases served
      rw [not_or, not_not, Bool.not_eq_true] at open'
      exact seal_writes writes open'.1 open'.2 ready
    · cases served

theorem asked_short (asked : reader.unasked cipher crc = none) :
    reader.finished = false ∧ reader.pending.length < encryptionBlockSize := by
  unfold EncryptReader.unasked at asked
  split at asked
  · cases asked
  · rename_i going
    split at asked
    · cases asked
    · rename_i short
      rw [not_or, Bool.not_eq_true] at going
      rw [not_or, Nat.not_le] at short
      exact ⟨going.2, short.2⟩

theorem accumulate_writes {more : Nat} (later : List InnerPoll)
    (writes : Writes cipher crc base plaintext ⟨reader, unread, schedule, output⟩)
    (asked : reader.unasked cipher crc = none) :
    let bytes := received more (encryptionBlockSize - reader.pending.length) unread
    Writes cipher crc base plaintext
      ⟨reader.accumulate bytes, unread.drop bytes.length, later, output⟩ := by
  intro bytes
  obtain ⟨going, short⟩ := asked_short asked
  obtain ⟨frames, rest, reached⟩ := writes.unfinished going
  dsimp only at frames rest reached
  have parts : bytes ++ unread.drop bytes.length = unread := received_append _ _ unread
  have fits : bytes.length ≤ encryptionBlockSize - reader.pending.length := received_length_le _ _ _
  unfold EncryptReader.accumulate
  split
  · rename_i nothing
    have ended : unread = [] := received_nothing (by omega) nothing
    rw [nothing, length_nil, drop_zero]
    exact ⟨writes.nonce, fun _ => ⟨frames, rest, reached⟩, writes.bounded, fun _ => ended,
      fun finished => absurd (going.symm.trans finished) Bool.false_ne_true⟩
  · refine ⟨writes.nonce, fun _ => ⟨frames, ?_, reached⟩, ?_, fun done => ?_,
      fun finished => absurd (going.symm.trans finished) Bool.false_ne_true⟩
    · dsimp only
      rw [append_assoc, parts, rest]
    · dsimp only
      rw [length_append]
      omega
    · have drained := writes.done done
      dsimp only at drained ⊢
      rw [drained, drop_nil]

theorem poll_answers_writes
    (writes : Writes cipher crc base plaintext ⟨reader, unread, schedule, output⟩) (room : Nat) :
    Writes cipher crc base plaintext
      (WriterRun.pollAnswers cipher crc room reader unread output schedule).2 := by
  induction schedule generalizing reader unread with
  | nil =>
    unfold WriterRun.pollAnswers
    split
    · rename_i next served
      exact serve_writes (unasked_writes writes served) room
    · exact writes
  | cons answer schedule ih =>
    have resumed : Writes cipher crc base plaintext ⟨reader, unread, schedule, output⟩ :=
      ⟨writes.nonce, writes.unfinished, writes.bounded, writes.done, writes.finished⟩
    unfold WriterRun.pollAnswers
    split
    · rename_i next served
      exact serve_writes (unasked_writes writes served) room
    · rename_i asked
      cases answer with
      | pending | failed error => exact resumed
      | ready more => exact ih (accumulate_writes schedule writes asked)

theorem polls_write (schedule : List InnerPoll) (rooms : List Nat) :
    Writes cipher crc base plaintext
      (WriterRun.polls cipher crc ⟨.newV2 base, plaintext, schedule, []⟩ rooms) := by
  have start : Writes cipher crc base plaintext ⟨.newV2 base, plaintext, schedule, []⟩ :=
    ⟨rfl, fun _ => ⟨rfl, rfl, Nat.zero_le _⟩, Nat.zero_le _, fun done => (nomatch done),
      fun finished => (nomatch finished)⟩
  have continued (run : WriterRun) (writes : Writes cipher crc base plaintext run) :
      Writes cipher crc base plaintext (WriterRun.polls cipher crc run rooms) := by
    induction rooms generalizing run with
    | nil => exact writes
    | cons room rooms ih => exact ih _ (poll_answers_writes writes room)
  exact continued _ start

theorem v2_frames_mono {count total : Nat} (order : count ≤ total) :
    v2Frames cipher crc base plaintext count <+: v2Frames cipher crc base plaintext total := by
  induction order with
  | refl => exact prefix_rfl
  | step _ ih =>
    rw [v2_frames_succ]
    exact ih.trans (prefix_append _ _)

end Writer

end Rustfs.Rio
