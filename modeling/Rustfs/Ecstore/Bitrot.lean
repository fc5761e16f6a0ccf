import Rustfs.Ecstore.DiskError
import Rustfs.Library.Blocks
import Rustfs.Library.ByteReader
import Rustfs.Library.Outcome

/-!
# Bitrot framing

A shard file holds its blocks with the digest of each block in front of it. The writer,
the size formula, the verifier and the reader compute this framing each on their own.
Whole-file algorithms keep their digest elsewhere; the size formula knows that, the
writer does not. How the bytes of a read are split over polls is left out: a fill is one
step.
-/

namespace Rustfs.Ecstore

open List Library Library.Blocks
open Library.ByteReader (Bytes)

inductive HashAlgorithm where
  | sha256
  | highwayHash256
  | highwayHash256S
  | highwayHash256SLegacy
  | blake2b512
  | md5
  | none
  deriving DecidableEq, Repr

namespace HashAlgorithm

def size : HashAlgorithm → Nat
  | .sha256 => 32
  | .highwayHash256 => 32
  | .highwayHash256S => 32
  | .highwayHash256SLegacy => 32
  | .blake2b512 => 64
  | .md5 => 16
  | .none => 0

/-- The two variants that keep a digest in front of every block. -/
def streaming (algo : HashAlgorithm) : Prop :=
  algo = .highwayHash256S ∨ algo = .highwayHash256SLegacy

end HashAlgorithm

/-- The digest functions, each with its fixed digest size. -/
structure Hashes where
  encode : HashAlgorithm → Bytes → Bytes
  length_encode : ∀ algo data, (encode algo data).length = algo.size

/-- `hash_encode_slices`: the slices are hashed as one stream. -/
def Hashes.encodeSlices (hashes : Hashes) (algo : HashAlgorithm) (slices : List Bytes) : Bytes :=
  hashes.encode algo slices.flatten

structure BitrotWriter where
  inner : Bytes
  hashAlgo : HashAlgorithm
  shardSize : Nat
  finished : Bool

namespace BitrotWriter

def new (shardSize : Nat) (algo : HashAlgorithm) : BitrotWriter := ⟨[], algo, shardSize, false⟩

def write (hashes : Hashes) (writer : BitrotWriter) (buf : Bytes) :
    Except DiskError (Nat × BitrotWriter) :=
  if buf.isEmpty then .ok (0, writer)
  else if writer.finished then .error (.io .invalidInput "bitrot writer already finished")
  else if writer.shardSize < buf.length then
    let size := buf.length
    let limit := writer.shardSize
    .error (.io .invalidInput s!"data size {size} exceeds shard size {limit}")
  else
    let finished := writer.finished || buf.length < writer.shardSize
    if 0 < writer.hashAlgo.size then
      let hash := hashes.encode writer.hashAlgo buf
      if hash.isEmpty then .error (.io .invalidInput "hash is empty")
      else .ok (buf.length, { writer with inner := writer.inner ++ hash ++ buf, finished })
    else .ok (buf.length, { writer with inner := writer.inner ++ buf, finished })

/-- The writes of consecutive buffers. -/
def writeAll (hashes : Hashes) : BitrotWriter → List Bytes → Except DiskError BitrotWriter
  | writer, [] => .ok writer
  | writer, buf :: rest =>
    match writer.write hashes buf with
    | .error error => .error error
    | .ok (_, next) => writeAll hashes next rest

end BitrotWriter

def bitrotShardFileSize (size shardSize : Nat) (algo : HashAlgorithm) : Nat :=
  if algo ≠ .highwayHash256S ∧ algo ≠ .highwayHash256SLegacy then size
  else size ⌈/⌉ shardSize * algo.size + size

/-- `read_exact`: the bytes read and those behind them. -/
def readExact (count : Nat) (input : Bytes) : Except DiskError (Bytes × Bytes) :=
  if count ≤ input.length then .ok (input.take count, input.drop count)
  else .error (.io .unexpectedEof "early eof")

/-- The loop of `bitrot_verify`; every turn consumes at least one of the `left`
bytes, which bounds the turns. -/
def verifyBlocks (hashes : Hashes) (algo : HashAlgorithm) :
    (fuel left shardSize : Nat) → Bytes → Except DiskError Bytes
  | 0, _, _, input => .ok input
  | fuel + 1, left, shardSize, input =>
    if left = 0 then .ok input
    else
      match readExact algo.size input with
      | .error error => .error error
      | .ok (hashBuf, behindHash) =>
        -- `left -= n` panics below zero
        if left < hashBuf.length then .error (.other "attempt to subtract with overflow")
        else
          let left := left - hashBuf.length
          let shardSize := if left < shardSize then left else shardSize
          match readExact shardSize behindHash with
          | .error error => .error error
          | .ok (buf, rest) =>
            if hashes.encode algo buf ≠ hashBuf then .error (.other "bitrot hash mismatch")
            else verifyBlocks hashes algo fuel (left - buf.length) shardSize rest

def bitrotVerify (hashes : Hashes) (input : Bytes) (wantSize partSize : Nat) (algo : HashAlgorithm)
    (shardSize : Nat) : Except DiskError Unit :=
  if wantSize ≠ bitrotShardFileSize partSize shardSize algo then
    .error (.other "bitrot shard file size mismatch")
  else
    match verifyBlocks hashes algo wantSize wantSize shardSize input with
    | .error error => .error error
    | .ok trailing =>
      if trailing.isEmpty then .ok () else .error (.other "bitrot shard file has trailing data")

/-- Where a reader gets its bytes from: a stream, a buffer in memory, or owned
chunks handed over one by one. -/
inductive ShardSource where
  | stream (bytes : Bytes)
  | memory (bytes : Bytes)
  | chunked (chunks : List Bytes)

/-- What is left of a list of chunks after `count` bytes. -/
def dropBytes : Nat → List Bytes → List Bytes
  | _, [] => []
  | count, chunk :: rest =>
    if chunk.length ≤ count then dropBytes (count - chunk.length) rest
    else chunk.drop count :: rest

namespace ShardSource

def bytes : ShardSource → Bytes
  | .stream bytes => bytes
  | .memory bytes => bytes
  | .chunked chunks => chunks.flatten

def advance (count : Nat) : ShardSource → ShardSource
  | .stream bytes => .stream (bytes.drop count)
  | .memory bytes => .memory (bytes.drop count)
  | .chunked chunks => .chunked (dropBytes count chunks)

/-- `fill`: up to `count` bytes. -/
def fill (source : ShardSource) (count : Nat) : Bytes × ShardSource :=
  (source.bytes.take count, source.advance count)

end ShardSource

structure BitrotReader where
  inner : ShardSource
  hashAlgo : HashAlgorithm
  shardSize : Nat
  skipVerify : Bool

def shortShardRead : DiskError := .io .unexpectedEof "file is corrupted"

def hashMismatch : DiskError := .io .invalidData "file is corrupted"

def splitAndVerify (hashes : Hashes) (algo : HashAlgorithm) (skipVerify : Bool) (block : Bytes) :
    Except DiskError Bytes :=
  let hash := block.take algo.size
  let data := block.drop algo.size
  if skipVerify then .ok data
  else if hashes.encode algo data ≠ hash then .error hashMismatch
  else .ok data

/-- The chunks handed over for a block of `need` bytes; the last one is cut at
the boundary, as the source hands over no more than it is asked for. -/
def collectChunks : (need : Nat) → List Bytes → Except DiskError (List Bytes)
  | 0, _ => .ok []
  | _ + 1, [] => .error shortShardRead
  | need + 1, chunk :: rest =>
    if chunk.isEmpty then .error (.io .invalidData "chunk handoff returned an empty chunk")
    else if chunk.length ≤ need + 1 then
      match collectChunks (need + 1 - chunk.length) rest with
      | .error error => .error error
      | .ok pieces => .ok (chunk :: pieces)
    else .ok [chunk.take (need + 1)]

/-- The pieces without the first `skip` bytes. -/
def skipBytes : Nat → List Bytes → List Bytes
  | _, [] => []
  | skip, chunk :: rest =>
    let start := min skip chunk.length
    chunk.drop start :: skipBytes (skip - start) rest

/-- The digest compared with the front of the pieces, piece by piece. -/
def digestMatches : Bytes → List Bytes → Bool
  | _, [] => true
  | digest, chunk :: rest =>
    let take := min digest.length chunk.length
    if digest.take take ≠ chunk.take take then false
    else if digest.length - take = 0 then true
    else digestMatches (digest.drop take) rest

/-- The block put together from its pieces. -/
def verifyPieces (hashes : Hashes) (algo : HashAlgorithm) (skipVerify : Bool)
    (pieces : List Bytes) : Except DiskError Bytes :=
  if !skipVerify &&
      !digestMatches (hashes.encodeSlices algo (skipBytes algo.size pieces)) pieces then
    .error hashMismatch
  else .ok (skipBytes algo.size pieces).flatten

namespace BitrotReader

def new (inner : ShardSource) (shardSize : Nat) (algo : HashAlgorithm) (skipVerify : Bool) :
    BitrotReader := ⟨inner, algo, shardSize, skipVerify⟩

def beginRead (reader : BitrotReader) (want : Nat) : Except DiskError Unit :=
  if reader.shardSize < want then
    let limit := reader.shardSize
    .error (.io .invalidInput s!"data size {want} exceeds shard size {limit}")
  else .ok ()

def finishLen (data : Bytes) (want : Nat) : Except DiskError Bytes :=
  if data.length < want then .error shortShardRead else .ok data

/-- The path over the scratch buffer. -/
def readScratch (hashes : Hashes) (reader : BitrotReader) (want : Nat) : Except DiskError Bytes :=
  let need := reader.hashAlgo.size + want
  let filled := (reader.inner.fill need).1
  if filled.length < need then .error shortShardRead
  else splitAndVerify hashes reader.hashAlgo reader.skipVerify filled

/-- The bytes `read` copies into a buffer of `want` bytes. -/
def readData (hashes : Hashes) (reader : BitrotReader) (want : Nat) : Except DiskError Bytes :=
  if reader.hashAlgo.size = 0 then finishLen (reader.inner.fill want).1 want
  else reader.readScratch hashes want

/-- The bytes `read_appending` appends. -/
def appendData (hashes : Hashes) (reader : BitrotReader) (want : Nat) : Except DiskError Bytes :=
  let need := reader.hashAlgo.size + want
  if reader.hashAlgo.size = 0 then finishLen (reader.inner.fill want).1 want
  else
    match reader.inner with
    | .memory bytes =>
      if need ≤ bytes.length then
        splitAndVerify hashes reader.hashAlgo reader.skipVerify (bytes.take need)
      else reader.readScratch hashes want
    | .chunked chunks =>
      match collectChunks need chunks with
      | .error error => .error error
      | .ok [chunk] => splitAndVerify hashes reader.hashAlgo reader.skipVerify chunk
      | .ok pieces => verifyPieces hashes reader.hashAlgo reader.skipVerify pieces
    | .stream _ => reader.readScratch hashes want

def consume (reader : BitrotReader) (want : Nat) : BitrotReader :=
  { reader with inner := reader.inner.advance (reader.hashAlgo.size + want) }

def read (hashes : Hashes) (reader : BitrotReader) (want : Nat) :
    Except DiskError (Bytes × BitrotReader) :=
  match reader.beginRead want with
  | .error error => .error error
  | .ok _ => (reader.readData hashes want).map fun data => (data, reader.consume want)

def readAppending (hashes : Hashes) (reader : BitrotReader) (out : Bytes) (want : Nat) :
    Except DiskError (Bytes × BitrotReader) :=
  match reader.beginRead want with
  | .error error => .error error
  | .ok _ => (reader.appendData hashes want).map fun data => (out ++ data, reader.consume want)

/-- Consecutive reads of the given lengths, put together. -/
def readAll (hashes : Hashes) : BitrotReader → List Nat → Except DiskError Bytes
  | _, [] => .ok []
  | reader, want :: rest =>
    match reader.read hashes want with
    | .error error => .error error
    | .ok (data, next) => (readAll hashes next rest).map (data ++ ·)

def appendAll (hashes : Hashes) : BitrotReader → Bytes → List Nat → Except DiskError Bytes
  | _, out, [] => .ok out
  | reader, out, want :: rest =>
    match reader.readAppending hashes out want with
    | .error error => .error error
    | .ok (next, behind) => appendAll hashes behind next rest

end BitrotReader

def interleave (digests pieces : List Bytes) : Bytes :=
  (List.zipWith (· ++ ·) digests pieces).flatten

def digests (hashes : Hashes) (algo : HashAlgorithm) (shardSize : Nat) (data : Bytes) :
    List Bytes :=
  (blocks shardSize data).map (hashes.encode algo)

/-- The shard file of `data`. -/
def frames (hashes : Hashes) (algo : HashAlgorithm) (shardSize : Nat) (data : Bytes) : Bytes :=
  interleave (digests hashes algo shardSize data) (blocks shardSize data)

section

variable {hashes : Hashes} {algo : HashAlgorithm} {shardSize : Nat} {data : Bytes} {count : Nat}
  {chunks : List Bytes} {wantSize : Nat}

@[simp] theorem frames_nil : frames hashes algo shardSize [] = [] := by
  simp [frames, interleave]

theorem frames_cons (positive : 0 < shardSize) (filled : data ≠ []) :
    frames hashes algo shardSize data =
      hashes.encode algo (data.take shardSize) ++ (data.take shardSize ++
        frames hashes algo shardSize (data.drop shardSize)) := by
  simp [frames, digests, interleave, blocks_cons positive filled]

theorem length_frames (positive : 0 < shardSize) (data : Bytes) :
    (frames hashes algo shardSize data).length =
      blockCount shardSize data.length * algo.size + data.length := by
  induction sized : data.length using Nat.strong_induction_on generalizing data with
  | _ size induction =>
    by_cases vacant : data = []
    · subst vacant
      subst sized
      simp [blockCount]
    · have longer : 0 < data.length := length_pos_iff.2 vacant
      have shorter := induction (size - shardSize) (by omega) (data.drop shardSize)
        (by rw [length_drop, sized])
      rw [frames_cons positive vacant, length_append, length_append,
        hashes.length_encode, length_take, shorter,
        block_count_drop positive (by omega : 0 < size), Nat.succ_mul]
      omega

theorem write_all_blocks (positive : 0 < shardSize) (hashed : 0 < algo.size) (data inner : Bytes) :
    ∃ finished, BitrotWriter.writeAll hashes ⟨inner, algo, shardSize, false⟩
        (blocks shardSize data) =
      .ok ⟨inner ++ frames hashes algo shardSize data, algo, shardSize, finished⟩ := by
  induction sized : data.length using Nat.strong_induction_on generalizing data inner with
  | _ size induction =>
    by_cases vacant : data = []
    · subst vacant
      exact ⟨false, by simp [BitrotWriter.writeAll]⟩
    · have longer : 0 < data.length := length_pos_iff.2 vacant
      have pieceLength : (data.take shardSize).length = min shardSize data.length :=
        length_take
      have notEmpty : (data.take shardSize).isEmpty = false := by
        rw [isEmpty_eq_false_iff, ← length_pos_iff]
        omega
      have digestNotEmpty : (hashes.encode algo (data.take shardSize)).isEmpty = false := by
        rw [isEmpty_eq_false_iff, ← length_pos_iff, hashes.length_encode]
        exact hashed
      have written : BitrotWriter.write hashes ⟨inner, algo, shardSize, false⟩
          (data.take shardSize) = .ok ((data.take shardSize).length,
            ⟨inner ++ hashes.encode algo (data.take shardSize) ++ data.take shardSize, algo,
              shardSize, (data.take shardSize).length < shardSize⟩) := by
        simp [BitrotWriter.write, notEmpty, hashed, digestNotEmpty]
      rw [blocks_cons positive vacant, frames_cons positive vacant, BitrotWriter.writeAll, written]
      dsimp only
      by_cases full : (data.take shardSize).length < shardSize
      · have last : data.drop shardSize = [] := drop_of_length_le (by omega)
        rw [last, blocks_nil, frames_nil, append_nil, BitrotWriter.writeAll, append_assoc]
        exact ⟨_, rfl⟩
      · obtain ⟨finished, rest⟩ := induction (size - shardSize) (by omega) (data.drop shardSize)
          (inner ++ hashes.encode algo (data.take shardSize) ++ data.take shardSize)
          (by rw [length_drop, sized])
        rw [decide_eq_false full, rest]
        exact ⟨finished, by simp only [append_assoc]⟩

theorem read_exact_append {front rest : Bytes} (sized : front.length = count) :
    readExact count (front ++ rest) = .ok (front, rest) := by
  subst sized
  simp [readExact]

theorem read_exact_eq_ok {input front rest : Bytes}
    (read : readExact count input = .ok (front, rest)) :
    input = front ++ rest ∧ front.length = count := by
  unfold readExact at read
  split at read
  · rename_i enough
    cases read
    exact ⟨(take_append_drop _ _).symm, length_take_of_le enough⟩
  · cases read

theorem verify_blocks_zero (fuel size : Nat) (input : Bytes) :
    verifyBlocks hashes algo fuel 0 size input = .ok input := by
  cases fuel <;> simp [verifyBlocks]

theorem verify_blocks_succ {left : Nat} (filled : 0 < left) (fuel size : Nat) (input rest : Bytes) :
    verifyBlocks hashes algo (fuel + 1) left size input = .ok rest ↔
      algo.size ≤ left ∧ ∃ piece behind,
        input = hashes.encode algo piece ++ (piece ++ behind) ∧
        piece.length = min size (left - algo.size) ∧
        verifyBlocks hashes algo fuel (left - algo.size - piece.length)
          (min size (left - algo.size)) behind = .ok rest := by
  have chosen : ∀ bound : Nat, (if left - bound < size then left - bound else size) =
      min size (left - bound) := by
    intro bound
    split <;> omega
  rw [verifyBlocks, if_neg (by omega)]
  constructor
  · intro accepted
    cases readHash : readExact algo.size input with
    | error error =>
      rw [readHash] at accepted
      cases accepted
    | ok first =>
      obtain ⟨hashBuf, behindHash⟩ := first
      obtain ⟨rfl, hashLength⟩ := read_exact_eq_ok readHash
      rw [readHash] at accepted
      dsimp only at accepted
      rw [hashLength] at accepted
      split at accepted
      · cases accepted
      · rw [chosen] at accepted
        cases readBlock : readExact (min size (left - algo.size)) behindHash with
        | error error =>
          rw [readBlock] at accepted
          cases accepted
        | ok second =>
          obtain ⟨piece, behind⟩ := second
          obtain ⟨rfl, pieceLength⟩ := read_exact_eq_ok readBlock
          rw [readBlock] at accepted
          dsimp only at accepted
          split at accepted
          · cases accepted
          · rename_i same
            rw [not_not] at same
            exact ⟨by omega, piece, behind, by rw [same], pieceLength, accepted⟩
  · rintro ⟨within, piece, behind, rfl, pieceLength, accepted⟩
    rw [read_exact_append (hashes.length_encode algo piece)]
    dsimp only
    rw [hashes.length_encode, if_neg (by omega), chosen, read_exact_append pieceLength]
    dsimp only
    rw [if_neg (not_not.2 rfl), accepted]

theorem block_count_last {size : Nat} (last : size ≤ shardSize) :
    blockCount shardSize (size - shardSize) = 0 := by
  rw [Nat.sub_eq_zero_of_le last]
  simp [blockCount]

theorem next_block_size (algo : HashAlgorithm) (shardSize size : Nat) :
    min shardSize (blockCount shardSize (size - shardSize) * algo.size + size) =
      min shardSize size := by
  by_cases last : size ≤ shardSize
  · rw [block_count_last last, Nat.zero_mul, Nat.zero_add]
  · omega

theorem verify_blocks_rest (size fuel : Nat) (input : Bytes) :
    verifyBlocks hashes algo fuel (blockCount shardSize (size - shardSize) * algo.size + size -
        min shardSize size) (min shardSize size) input =
      verifyBlocks hashes algo fuel (blockCount shardSize (size - shardSize) * algo.size +
        (size - shardSize)) shardSize input := by
  by_cases last : size ≤ shardSize
  · rw [block_count_last last, Nat.zero_mul, Nat.zero_add, Nat.zero_add, Nat.min_eq_right last,
      Nat.sub_self, Nat.sub_eq_zero_of_le last, verify_blocks_zero, verify_blocks_zero]
  · rw [Nat.min_eq_left (by omega), Nat.add_sub_assoc (by omega)]

theorem frames_append {piece : Bytes} {size : Nat} (positive : 0 < shardSize)
    (present : 0 < size) (pieceLength : piece.length = min shardSize size)
    (dataLength : data.length = size - shardSize) :
    frames hashes algo shardSize (piece ++ data) =
      hashes.encode algo piece ++ (piece ++ frames hashes algo shardSize data) := by
  have front : (piece ++ data).take shardSize = piece := by
    rw [take_append, take_of_length_le (by omega)]
    by_cases last : size ≤ shardSize
    · rw [eq_nil_of_length_eq_zero (by omega : data.length = 0), take_nil, append_nil]
    · rw [(by omega : shardSize - piece.length = 0), take_zero, append_nil]
  have back : (piece ++ data).drop shardSize = data := by
    have whole := take_append_drop shardSize (piece ++ data)
    rw [front, append_cancel_left_eq] at whole
    exact whole
  have notEmpty : piece ++ data ≠ [] := by
    rw [← length_pos_iff, length_append]
    omega
  rw [frames_cons positive notEmpty, front, back]

theorem verify_blocks_iff (positive : 0 < shardSize) (hashed : 0 < algo.size) (size : Nat)
    (fuel : Nat) (enough : blockCount shardSize size * algo.size + size ≤ fuel)
    (input rest : Bytes) :
    verifyBlocks hashes algo fuel (blockCount shardSize size * algo.size + size) shardSize input =
        .ok rest ↔
      ∃ data, data.length = size ∧ input = frames hashes algo shardSize data ++ rest := by
  induction size using Nat.strong_induction_on generalizing fuel input with
  | _ size induction =>
    by_cases vacant : size = 0
    · subst vacant
      have noBlocks : blockCount shardSize 0 = 0 := by simp [blockCount]
      rw [noBlocks, Nat.zero_mul, Nat.zero_add, verify_blocks_zero, Except.ok.injEq]
      constructor
      · intro same
        exact ⟨[], rfl, by rw [same, frames_nil, nil_append]⟩
      · rintro ⟨data, empty, same⟩
        rw [eq_nil_of_length_eq_zero empty, frames_nil, nil_append] at same
        exact same
    · have counted := block_count_drop positive (Nat.pos_of_ne_zero vacant)
      rw [counted, Nat.succ_mul] at enough ⊢
      obtain ⟨fuel, rfl⟩ := Nat.exists_eq_add_of_lt (by omega : 0 < fuel)
      have afterHash : blockCount shardSize (size - shardSize) * algo.size + algo.size + size -
          algo.size = blockCount shardSize (size - shardSize) * algo.size + size := by omega
      have next := induction (size - shardSize) (by omega) (0 + fuel) (by omega)
      rw [verify_blocks_succ (by omega), afterHash, next_block_size]
      constructor
      · rintro ⟨_, piece, behind, rfl, pieceLength, accepted⟩
        rw [pieceLength, verify_blocks_rest, next] at accepted
        obtain ⟨data, dataLength, rfl⟩ := accepted
        refine ⟨piece ++ data, ?_, ?_⟩
        · rw [length_append]
          omega
        · rw [frames_append positive (Nat.pos_of_ne_zero vacant) pieceLength dataLength]
          simp only [append_assoc]
      · rintro ⟨data, dataLength, rfl⟩
        have notEmpty : data ≠ [] := by
          rw [← length_pos_iff]
          omega
        have pieceLength : (data.take shardSize).length = min shardSize size := by
          rw [length_take, dataLength]
        refine ⟨by omega, data.take shardSize,
          frames hashes algo shardSize (data.drop shardSize) ++ rest, ?_, pieceLength, ?_⟩
        · rw [frames_cons positive notEmpty]
          simp only [append_assoc]
        · rw [pieceLength, verify_blocks_rest, next]
          exact ⟨data.drop shardSize, by rw [length_drop, dataLength], rfl⟩

theorem bitrot_shard_file_size_streaming (streaming : algo.streaming) (size shardSize : Nat) :
    bitrotShardFileSize size shardSize algo = blockCount shardSize size * algo.size + size := by
  rcases streaming with rfl | rfl <;> rfl

theorem size_pos_of_streaming (streaming : algo.streaming) : 0 < algo.size := by
  rcases streaming with rfl | rfl <;> decide

theorem bitrot_verify_iff (streaming : algo.streaming) (positive : 0 < shardSize) (input : Bytes)
    (wantSize partSize : Nat) :
    bitrotVerify hashes input wantSize partSize algo shardSize = .ok () ↔
      wantSize = bitrotShardFileSize partSize shardSize algo ∧
        ∃ data, data.length = partSize ∧ input = frames hashes algo shardSize data := by
  have accepts := fun rest => @verify_blocks_iff hashes algo shardSize positive
    (size_pos_of_streaming streaming) partSize _ le_rfl input rest
  rw [← bitrot_shard_file_size_streaming streaming] at accepts
  unfold bitrotVerify
  by_cases sized : wantSize = bitrotShardFileSize partSize shardSize algo
  · rw [if_neg (not_not.2 sized), sized]
    constructor
    · intro accepted
      cases verified : verifyBlocks hashes algo (bitrotShardFileSize partSize shardSize algo)
          (bitrotShardFileSize partSize shardSize algo) shardSize input with
      | error error =>
        rw [verified] at accepted
        cases accepted
      | ok trailing =>
        rw [verified] at accepted
        cases trailing with
        | nil =>
          obtain ⟨data, dataLength, same⟩ := (accepts []).1 verified
          exact ⟨rfl, data, dataLength, by rw [same, append_nil]⟩
        | cons byte more => cases accepted
    · rintro ⟨_, data, dataLength, same⟩
      rw [(accepts []).2 ⟨data, dataLength, by rw [same, append_nil]⟩]
      rfl
  · rw [if_pos sized]
    constructor
    · intro failed
      cases failed
    · rintro ⟨same, _⟩
      exact absurd same sized

theorem flatten_drop_bytes (count : Nat) (chunks : List Bytes) :
    (dropBytes count chunks).flatten = chunks.flatten.drop count := by
  induction chunks generalizing count with
  | nil => simp [dropBytes]
  | cons chunk rest induction =>
    rw [dropBytes, flatten_cons]
    split
    · rename_i whole
      rw [induction, drop_append, drop_of_length_le whole, nil_append]
    · rw [flatten_cons, drop_append_of_le_length (by omega)]

theorem ShardSource.bytes_advance (source : ShardSource) (count : Nat) :
    (source.advance count).bytes = source.bytes.drop count := by
  cases source with
  | stream bytes => rfl
  | memory bytes => rfl
  | chunked chunks => exact flatten_drop_bytes count chunks

theorem split_and_verify_frame (skipVerify : Bool) (piece : Bytes) :
    splitAndVerify hashes algo skipVerify (hashes.encode algo piece ++ piece) = .ok piece := by
  unfold splitAndVerify
  rw [← hashes.length_encode algo piece, take_left, drop_left]
  cases skipVerify <;> simp

theorem flatten_skip_bytes (skip : Nat) (pieces : List Bytes) :
    (skipBytes skip pieces).flatten = pieces.flatten.drop skip := by
  induction pieces generalizing skip with
  | nil => simp [skipBytes]
  | cons piece rest induction =>
    rw [skipBytes, flatten_cons, flatten_cons, induction, drop_append]
    congr 1
    · by_cases part : skip ≤ piece.length
      · rw [Nat.min_eq_left part]
      · rw [Nat.min_eq_right (by omega), drop_of_length_le le_rfl, drop_of_length_le (by omega)]
    · congr 1
      omega

theorem digest_matches_front (digest : Bytes) (pieces : List Bytes) (rest : Bytes)
    (front : pieces.flatten = digest ++ rest) : digestMatches digest pieces = true := by
  induction pieces generalizing digest with
  | nil => rfl
  | cons piece pieces induction =>
    rw [flatten_cons] at front
    have same : digest.take (min digest.length piece.length) =
        piece.take (min digest.length piece.length) := by
      have taken := congrArg (List.take (min digest.length piece.length)) front
      rw [take_append_of_le_length (Nat.min_le_right _ _),
        take_append_of_le_length (Nat.min_le_left _ _)] at taken
      exact taken.symm
    rw [digestMatches, if_neg (not_not.2 same)]
    split
    · rfl
    · have whole : min digest.length piece.length = piece.length := by omega
      rw [whole]
      apply induction
      have dropped := congrArg (List.drop piece.length) front
      rw [drop_left, drop_append_of_le_length (by omega)] at dropped
      exact dropped

theorem collect_chunks_spec {need : Nat} (full : ∀ chunk ∈ chunks, chunk ≠ [])
    (enough : need ≤ chunks.flatten.length) :
    ∃ pieces, collectChunks need chunks = .ok pieces ∧ pieces.flatten = chunks.flatten.take need := by
  induction chunks generalizing need with
  | nil =>
    have vacant : need = 0 := Nat.le_zero.1 enough
    subst vacant
    exact ⟨[], rfl, rfl⟩
  | cons chunk rest induction =>
    rw [flatten_cons, length_append] at enough
    cases need with
    | zero => exact ⟨[], rfl, rfl⟩
    | succ need =>
      have notEmpty : chunk.isEmpty = false := by
        rw [isEmpty_eq_false_iff]
        exact full chunk mem_cons_self
      rw [collectChunks, notEmpty]
      simp only [Bool.false_eq_true, if_false]
      rw [flatten_cons]
      split
      · rename_i whole
        obtain ⟨pieces, collected, same⟩ := induction
          (fun other member => full other (mem_cons_of_mem _ member))
          (by omega : need + 1 - chunk.length ≤ rest.flatten.length)
        rw [collected]
        refine ⟨chunk :: pieces, rfl, ?_⟩
        rw [flatten_cons, same, take_append, take_of_length_le whole]
      · refine ⟨[chunk.take (need + 1)], rfl, ?_⟩
        rw [flatten_singleton, take_append_of_le_length (by omega)]

theorem verify_pieces_frame (skipVerify : Bool) {pieces : List Bytes} {piece : Bytes}
    (framed : pieces.flatten = hashes.encode algo piece ++ piece) :
    verifyPieces hashes algo skipVerify pieces = .ok piece := by
  have payload : (skipBytes algo.size pieces).flatten = piece := by
    rw [flatten_skip_bytes, framed, ← hashes.length_encode algo piece, drop_left]
  have accepted : digestMatches (hashes.encode algo piece) pieces = true :=
    digest_matches_front _ _ _ framed
  rw [verifyPieces, Hashes.encodeSlices, payload, accepted]
  simp

/-- No empty chunk is handed over. -/
def ShardSource.Proper : ShardSource → Prop
  | .stream _ => True
  | .memory _ => True
  | .chunked chunks => ∀ chunk ∈ chunks, chunk ≠ []

theorem drop_bytes_ne_nil (full : ∀ chunk ∈ chunks, chunk ≠ []) (count : Nat) :
    ∀ chunk ∈ dropBytes count chunks, chunk ≠ [] := by
  induction chunks generalizing count with
  | nil => simp [dropBytes]
  | cons head rest induction =>
    have restFull : ∀ chunk ∈ rest, chunk ≠ [] :=
      fun other member => full other (mem_cons_of_mem _ member)
    rw [dropBytes]
    split
    · exact induction restFull _
    · intro chunk member
      rcases mem_cons.1 member with rfl | inRest
      · rw [← length_pos_iff, length_drop]
        omega
      · exact restFull chunk inRest

theorem ShardSource.Proper.advance {source : ShardSource} (proper : source.Proper) (count : Nat) :
    (source.advance count).Proper := by
  cases source with
  | stream bytes => trivial
  | memory bytes => trivial
  | chunked chunks => exact drop_bytes_ne_nil proper count

section Reader

variable {reader : BitrotReader} {piece rest : Bytes}

section

variable (framed : reader.inner.bytes = hashes.encode reader.hashAlgo piece ++ (piece ++ rest))

include framed

theorem bytes_consume : (reader.consume piece.length).inner.bytes = rest := by
  rw [BitrotReader.consume, ShardSource.bytes_advance, framed,
    ← hashes.length_encode reader.hashAlgo piece, ← append_assoc, ← length_append,
    drop_left]

theorem fill_frame :
    reader.inner.bytes.take (reader.hashAlgo.size + piece.length) =
      hashes.encode reader.hashAlgo piece ++ piece := by
  rw [framed, ← hashes.length_encode reader.hashAlgo piece, ← append_assoc,
    ← length_append, take_left]

theorem read_scratch_frame : reader.readScratch hashes piece.length = .ok piece := by
  unfold BitrotReader.readScratch ShardSource.fill
  dsimp only
  rw [fill_frame framed, if_neg, split_and_verify_frame]
  rw [length_append, hashes.length_encode]
  omega

end

theorem read_frame (hashed : 0 < reader.hashAlgo.size) (fits : piece.length ≤ reader.shardSize)
    (framed : reader.inner.bytes = hashes.encode reader.hashAlgo piece ++ (piece ++ rest)) :
    reader.read hashes piece.length = .ok (piece, reader.consume piece.length) := by
  unfold BitrotReader.read BitrotReader.beginRead BitrotReader.readData
  rw [if_neg (by omega), if_neg (by omega), read_scratch_frame framed]
  rfl

theorem append_data_frame (hashed : 0 < reader.hashAlgo.size) (proper : reader.inner.Proper)
    (framed : reader.inner.bytes = hashes.encode reader.hashAlgo piece ++ (piece ++ rest)) :
    reader.appendData hashes piece.length = .ok piece := by
  have front := fill_frame framed
  have scratch := read_scratch_frame framed
  have enough : reader.hashAlgo.size + piece.length ≤ reader.inner.bytes.length := by
    rw [framed, length_append, length_append, hashes.length_encode]
    omega
  unfold BitrotReader.appendData
  rw [if_neg (by omega)]
  cases held : reader.inner with
  | stream bytes => exact scratch
  | memory bytes =>
    rw [held] at front enough
    dsimp only [ShardSource.bytes] at front enough ⊢
    rw [if_pos enough, front, split_and_verify_frame]
  | chunked chunks =>
    rw [held] at front enough proper
    dsimp only [ShardSource.bytes] at front enough ⊢
    obtain ⟨pieces, collected, same⟩ := collect_chunks_spec proper enough
    rw [front] at same
    rw [collected]
    match pieces, same with
    | [], same => exact verify_pieces_frame _ same
    | [chunk], same =>
      rw [flatten_singleton] at same
      dsimp only
      rw [same, split_and_verify_frame]
    | _ :: _ :: _, same => exact verify_pieces_frame _ same

theorem append_frame (hashed : 0 < reader.hashAlgo.size) (fits : piece.length ≤ reader.shardSize)
    (proper : reader.inner.Proper)
    (framed : reader.inner.bytes = hashes.encode reader.hashAlgo piece ++ (piece ++ rest))
    (out : Bytes) :
    reader.readAppending hashes out piece.length =
      .ok (out ++ piece, reader.consume piece.length) := by
  unfold BitrotReader.readAppending BitrotReader.beginRead
  rw [if_neg (by omega), append_data_frame hashed proper framed]
  rfl

theorem read_all_frames (reader : BitrotReader) (positive : 0 < reader.shardSize)
    (hashed : 0 < reader.hashAlgo.size) (data : Bytes)
    (holds : reader.inner.bytes = frames hashes reader.hashAlgo reader.shardSize data) :
    reader.readAll hashes ((blocks reader.shardSize data).map List.length) = .ok data := by
  induction sized : data.length using Nat.strong_induction_on generalizing data reader with
  | _ size induction =>
    by_cases vacant : data = []
    · subst vacant
      simp [BitrotReader.readAll]
    · have longer : 0 < data.length := length_pos_iff.2 vacant
      rw [frames_cons positive vacant] at holds
      have tail := induction (size - reader.shardSize) (by omega)
        (reader.consume (data.take reader.shardSize).length) positive hashed
        (data.drop reader.shardSize) (bytes_consume holds) (by rw [length_drop, sized])
      rw [blocks_cons positive vacant, map_cons, BitrotReader.readAll,
        read_frame hashed (length_take_le _ _) holds]
      have joined := congrArg (Except.map (data.take reader.shardSize ++ ·)) tail
      exact joined.trans (congrArg Except.ok (take_append_drop _ data))

theorem append_all_frames (reader : BitrotReader) (positive : 0 < reader.shardSize)
    (hashed : 0 < reader.hashAlgo.size) (proper : reader.inner.Proper) (data out : Bytes)
    (holds : reader.inner.bytes = frames hashes reader.hashAlgo reader.shardSize data) :
    reader.appendAll hashes out ((blocks reader.shardSize data).map List.length) =
      .ok (out ++ data) := by
  induction sized : data.length using Nat.strong_induction_on generalizing data reader out with
  | _ size induction =>
    by_cases vacant : data = []
    · subst vacant
      simp [BitrotReader.appendAll]
    · have longer : 0 < data.length := length_pos_iff.2 vacant
      rw [frames_cons positive vacant] at holds
      have tail := induction (size - reader.shardSize) (by omega)
        (reader.consume (data.take reader.shardSize).length) positive hashed (proper.advance _)
        (data.drop reader.shardSize) (out ++ data.take reader.shardSize) (bytes_consume holds)
        (by rw [length_drop, sized])
      rw [blocks_cons positive vacant, map_cons, BitrotReader.appendAll,
        append_frame hashed (length_take_le _ _) proper holds]
      rw [append_assoc, take_append_drop] at tail
      exact tail

end Reader

theorem interleave_injective {width : Nat} (left right leftPieces rightPieces : List Bytes)
    (leftCount : left.length = leftPieces.length) (rightCount : right.length = rightPieces.length)
    (leftSize : ∀ digest ∈ left, digest.length = width)
    (rightSize : ∀ digest ∈ right, digest.length = width)
    (shape : leftPieces.map List.length = rightPieces.map List.length)
    (same : interleave left leftPieces = interleave right rightPieces) :
    left = right ∧ leftPieces = rightPieces := by
  induction left generalizing right leftPieces rightPieces with
  | nil =>
    have noLeft : leftPieces = [] := eq_nil_of_length_eq_zero leftCount.symm
    subst noLeft
    have noRight : rightPieces = [] := by simpa using shape.symm
    subst noRight
    exact ⟨(eq_nil_of_length_eq_zero rightCount).symm, rfl⟩
  | cons digest left induction =>
    match leftPieces, rightPieces, right, leftCount, rightCount, shape with
    | piece :: leftPieces, piece' :: rightPieces, digest' :: right, leftCount, rightCount, shape =>
      simp only [map_cons, List.cons.injEq] at shape
      simp only [length_cons, Nat.add_right_cancel_iff] at leftCount rightCount
      have digestLength : digest.length = digest'.length := by
        rw [leftSize digest mem_cons_self, rightSize digest' mem_cons_self]
      simp only [interleave, zipWith_cons_cons, flatten_cons, append_assoc]
        at same
      obtain ⟨rfl, behind⟩ := append_inj same digestLength
      obtain ⟨rfl, others⟩ := append_inj behind shape.1
      obtain ⟨rfl, rfl⟩ := induction right leftPieces rightPieces leftCount rightCount
        (fun other member => leftSize other (mem_cons_of_mem _ member))
        (fun other member => rightSize other (mem_cons_of_mem _ member)) shape.2 others
      exact ⟨rfl, rfl⟩

theorem length_blocks_eq (size : Nat) {left right : Bytes} (same : left.length = right.length) :
    (blocks size left).map List.length = (blocks size right).map List.length := by
  simp only [blocks, map_map, Function.comp_def, length_block, same]

theorem length_digests (data : Bytes) :
    (digests hashes algo shardSize data).length = (blocks shardSize data).length :=
  length_map _

theorem length_of_mem_digests {digest : Bytes}
    (member : digest ∈ digests hashes algo shardSize data) : digest.length = algo.size := by
  obtain ⟨piece, _, rfl⟩ := mem_map.1 member
  exact hashes.length_encode algo piece

theorem digests_of_accepted (streaming : algo.streaming) (positive : 0 < shardSize)
    {changed : List Bytes} (count : changed.length = (blocks shardSize data).length)
    (sized : ∀ digest ∈ changed, digest.length = algo.size)
    (accepted : bitrotVerify hashes (interleave changed (blocks shardSize data)) wantSize
      data.length algo shardSize = .ok ()) : changed = digests hashes algo shardSize data := by
  obtain ⟨_, other, otherLength, same⟩ := (bitrot_verify_iff streaming positive _ _ _).1 accepted
  obtain ⟨digestsSame, blocksSame⟩ := interleave_injective _ _ _ _ count (length_digests other)
    sized (fun digest member => length_of_mem_digests member)
    (length_blocks_eq shardSize otherLength.symm) same
  rw [digestsSame, digests, digests, blocksSame]

/-- A file that keeps the digests and is accepted keeps the pieces, unless two
pieces collide. -/
theorem data_of_accepted (streaming : algo.streaming) (positive : 0 < shardSize)
    {other : Bytes} (sized : other.length = data.length) (accepted : bitrotVerify hashes
      (interleave (digests hashes algo shardSize data) (blocks shardSize other)) wantSize
      data.length algo shardSize = .ok ())
    (apart : ∀ index, hashes.encode algo (block shardSize data index) =
      hashes.encode algo (block shardSize other index) →
      block shardSize data index = block shardSize other index) : other = data := by
  obtain ⟨_, found, foundLength, same⟩ := (bitrot_verify_iff streaming positive _ _ _).1 accepted
  have counted : (digests hashes algo shardSize data).length = (blocks shardSize other).length := by
    rw [length_digests, blocks, blocks, length_map, length_map, sized]
  obtain ⟨digestsSame, blocksSame⟩ := interleave_injective _ _ _ _ counted (length_digests found)
    (fun digest member => length_of_mem_digests member)
    (fun digest member => length_of_mem_digests member)
    (length_blocks_eq shardSize (sized.trans foundLength.symm)) same
  have pieces : blocks shardSize data = blocks shardSize other := by
    rw [digests, digests, ← blocksSame, blocks, blocks, map_map, map_map, sized,
      map_inj_left] at digestsSame
    rw [blocks, blocks, sized, map_inj_left]
    intro index listed
    exact apart index (digestsSame index listed)
  have joined := congrArg List.flatten pieces
  rw [blocks, blocks, flatten_blocks positive, flatten_blocks positive] at joined
  exact joined.symm

end

/-- The writer, the size formula, the verifier and the reader agree for the
streaming algorithms: the verifier accepts exactly the shard files of data of
the same length, so no cut or longer file, and neither a changed digest nor,
without a collision, a changed block goes unnoticed on its own. -/
theorem bitrot_framing (hashes : Hashes) (algo : HashAlgorithm) (streaming : algo.streaming)
    (shardSize : Nat) (positive : 0 < shardSize) (data : Bytes) :
    (∃ finished, (BitrotWriter.new shardSize algo).writeAll hashes (blocks shardSize data) =
        .ok ⟨frames hashes algo shardSize data, algo, shardSize, finished⟩) ∧
      (frames hashes algo shardSize data).length =
        bitrotShardFileSize data.length shardSize algo ∧
      (∀ source skipVerify, source.bytes = frames hashes algo shardSize data →
        (BitrotReader.new source shardSize algo skipVerify).readAll hashes
            ((blocks shardSize data).map List.length) = .ok data ∧
          (source.Proper → (BitrotReader.new source shardSize algo skipVerify).appendAll hashes []
            ((blocks shardSize data).map List.length) = .ok data)) ∧
      (∀ file wantSize, bitrotVerify hashes file wantSize data.length algo shardSize = .ok () ↔
        wantSize = (frames hashes algo shardSize data).length ∧
          ∃ other, other.length = data.length ∧ file = frames hashes algo shardSize other) ∧
      (∀ file wantSize, file.length ≠ (frames hashes algo shardSize data).length →
        bitrotVerify hashes file wantSize data.length algo shardSize ≠ .ok ()) ∧
      (∀ changed wantSize, changed.length = (blocks shardSize data).length →
        (∀ digest ∈ changed, digest.length = algo.size) →
        changed ≠ digests hashes algo shardSize data →
        bitrotVerify hashes (interleave changed (blocks shardSize data)) wantSize data.length algo
          shardSize ≠ .ok ()) ∧
      (∀ other wantSize, other.length = data.length → other ≠ data →
        (∀ index, hashes.encode algo (block shardSize data index) =
          hashes.encode algo (block shardSize other index) →
          block shardSize data index = block shardSize other index) →
        bitrotVerify hashes
          (interleave (digests hashes algo shardSize data) (blocks shardSize other)) wantSize
          data.length algo shardSize ≠ .ok ()) := by
  have hashed := size_pos_of_streaming streaming
  have sized : (frames hashes algo shardSize data).length =
      bitrotShardFileSize data.length shardSize algo := by
    rw [length_frames positive, bitrot_shard_file_size_streaming streaming]
  have accepts := fun file wantSize =>
    @bitrot_verify_iff hashes algo shardSize streaming positive file wantSize data.length
  refine ⟨write_all_blocks positive hashed data [], sized, ?_, ?_, ?_, ?_, ?_⟩
  · intro source skipVerify holds
    constructor
    · exact read_all_frames (BitrotReader.new source shardSize algo skipVerify) positive hashed data
        holds
    · intro proper
      exact append_all_frames (BitrotReader.new source shardSize algo skipVerify) positive hashed
        proper data [] holds
  · rw [sized]
    exact accepts
  · intro file wantSize longer accepted
    obtain ⟨_, other, otherLength, same⟩ := (accepts file wantSize).1 accepted
    rw [same, length_frames positive, length_frames positive, otherLength] at longer
    exact longer rfl
  · intro changed wantSize count sizes differs accepted
    exact differs (digests_of_accepted streaming positive count sizes accepted)
  · intro other wantSize otherLength differs apart accepted
    exact differs (data_of_accepted streaming positive otherLength accepted apart)

/-- Digests that are the front of the data, filled up with zeros. -/
def frontHashes : Hashes where
  encode algo data := (data ++ List.replicate algo.size 0).take algo.size
  length_encode algo data := by
    rw [List.length_take, List.length_append, List.length_replicate]
    omega

theorem bitrot_framing_two_blocks :
    bitrotVerify frontHashes (frames frontHashes .highwayHash256S 2 [1, 2, 3]) 67 3
      .highwayHash256S 2 = .ok () := by
  have framing := bitrot_framing frontHashes .highwayHash256S (.inl rfl) 2 (by decide) [1, 2, 3]
  exact (framing.2.2.2.1 _ _).2 ⟨rfl, [1, 2, 3], rfl, rfl⟩

/-- An algorithm that keeps its digest elsewhere makes the writer's file longer
than the formula says, and a file with another block and that block's digest is
accepted. -/
theorem bitrot_framing_limits :
    (¬ ∀ (algo : HashAlgorithm) (data : Bytes) (writer : BitrotWriter),
      (BitrotWriter.new 1 algo).writeAll frontHashes (blocks 1 data) = .ok writer →
      writer.inner.length = bitrotShardFileSize data.length 1 algo) ∧
    ¬ ∀ file, file ≠ frames frontHashes .highwayHash256S 1 [1] →
      bitrotVerify frontHashes file 33 1 .highwayHash256S 1 ≠ .ok () := by
  constructor
  · intro every
    have sized := every .sha256 [1] _ rfl
    revert sized
    decide
  · intro every
    have rejected := every (frames frontHashes .highwayHash256S 1 [2]) (by decide)
    apply rejected
    exact (bitrot_verify_iff (.inl rfl) (by decide) _ _ _).2 ⟨rfl, [2], rfl, rfl⟩

end Rustfs.Ecstore
