import Rustfs.Ecstore.Erasure

/-!
# Healing the shards of an object

Healing reads the shards of an object block by block from the drives that still have
them, rebuilds every shard of the block and hands each target drive the one of its slot.
A source that times out is not asked again, a source that fails in another way is; a
target that fails is dropped, and one that is left is enough. The order in which the
reads and writes of one block complete does not matter, as each touches its own slot
only. Logs and metrics are left out.
-/

namespace Rustfs.Ecstore.Heal

open List Library Library.Blocks
open Library.ByteReader (Bytes)

/-- The Reed-Solomon library of a coder, with what it needs to restore missing
data shards and to check a full set of shards. -/
structure Codec extends ReedSolomon where
  reconstructData : Nat → Nat → List (Option Bytes) → Except DiskError (List (Option Bytes))
  verify : Nat → Nat → List Bytes → Except DiskError Bool

def invalidShardCount (got expected : Nat) : DiskError :=
  .other s!"invalid shard count: got {got}, expected {expected}"

def holdsPayload (shard : Option Bytes) : Bool := shard.any fun bytes => !bytes.isEmpty

/-- `recover_empty_payload_data_shards`; no shards stand for `Ok(false)`. -/
def recoverEmptyPayloadDataShards (erasure : Erasure) (shards : List (Option Bytes)) :
    Except DiskError (Option (List (Option Bytes))) :=
  if shards.length ≠ erasure.totalShardCount then
    .error (invalidShardCount shards.length erasure.totalShardCount)
  else if shards.any holdsPayload || !shards.any Option.isSome then .ok none
  else
    .ok (some ((shards.take erasure.dataShards).map (fun shard => some (shard.getD [])) ++
      shards.drop erasure.dataShards))

def reconstructData (codec : Codec) (erasure : Erasure) (shards : List (Option Bytes)) :
    Except DiskError (List (Option Bytes)) := do
  match ← recoverEmptyPayloadDataShards erasure shards with
  | some recovered => pure recovered
  | none =>
    if erasure.usesLegacy && !shards.any Option.isSome then
      .error (.other "No valid shards found for reconstruction")
    else codec.reconstructData erasure.dataShards erasure.parityShards shards

def firstLength (shards : List (Option Bytes)) : Option Nat :=
  shards.findSome? fun shard => shard.map List.length

/-- The loop that wants every shard, and every shard of one length. -/
def collectShards (purpose : String) (shardLen : Nat) :
    Nat → List (Option Bytes) → Except DiskError (List Bytes)
  | _, [] => .ok []
  | index, none :: _ => .error (.other s!"missing shard {index} {purpose}")
  | index, some shard :: rest =>
    if shard.length ≠ shardLen then
      .error (.other
        s!"inconsistent shard length at index {index}: got {shard.length}, expected {shardLen}")
    else (collectShards purpose shardLen (index + 1) rest).map (shard :: ·)

def fillParity (erasure : Erasure) (shardLen : Nat) (shards : List (Option Bytes)) :
    List (Option Bytes) :=
  shards.take erasure.dataShards ++
    (shards.drop erasure.dataShards).map fun shard => some (shard.getD (List.replicate shardLen 0))

/-- `encode_parity_shards` with the encoder of the codec. -/
def encodeParity (codec : Codec) (erasure : Erasure) (shards : List (Option Bytes)) :
    Except DiskError (List (Option Bytes)) :=
  if shards.length ≠ erasure.totalShardCount then
    .error (invalidShardCount shards.length erasure.totalShardCount)
  else
    match firstLength shards with
    | none => .error (.other "No valid shards found for parity encoding")
    | some shardLen => do
        let filled := fillParity erasure shardLen shards
        let slices ← collectShards "after data reconstruction" shardLen 0 filled
        if shardLen = 0 then pure filled
        else (Erasure.encodeSlices codec.toReedSolomon erasure slices).map (·.map some)

def reconstruct (codec : Codec) (erasure : Erasure) (shards : List (Option Bytes)) :
    Except DiskError (List (Option Bytes)) := do
  encodeParity codec erasure (← reconstructData codec erasure shards)

def decodeDataAndParity (codec : Codec) (erasure : Erasure) (shards : List (Option Bytes)) :
    Except DiskError (List (Option Bytes)) :=
  if 0 < erasure.parityShards then reconstruct codec erasure shards else .ok shards

/-- The comparison of the older coder, from the first parity shard on. -/
def sameParity : Nat → List (Option Bytes) → List Bytes → Except DiskError Bool
  | index, none :: _, _ :: _ =>
    .error (.other s!"missing parity shard {index} after verification encode")
  | index, some expected :: others, shard :: shards =>
    if expected ≠ shard then .ok false else sameParity (index + 1) others shards
  | _, _, _ => .ok true

/-- `verify` of the two coders. The older library has none: it encodes again. -/
def verify (codec : Codec) (erasure : Erasure) (shards : List Bytes) : Except DiskError Bool :=
  if shards.all List.isEmpty then .ok true
  else if erasure.usesLegacy then do
    let expected ← encodeParity codec erasure (shards.map some)
    sameParity erasure.dataShards (expected.drop erasure.dataShards)
      (shards.drop erasure.dataShards)
  else codec.verify erasure.dataShards erasure.parityShards shards

def verifyDataAndParity (codec : Codec) (erasure : Erasure) (shards : List (Option Bytes)) :
    Except DiskError Bool :=
  if shards.length ≠ erasure.totalShardCount then
    .error (invalidShardCount shards.length erasure.totalShardCount)
  else if erasure.parityShards = 0 then .ok true
  else do
    let slices ← collectShards "for data/parity verification" ((firstLength shards).getD 0) 0 shards
    verify codec erasure slices

def sourceParity (erasure : Erasure) (shards : List (Option Bytes)) : List (Nat × Bytes) :=
  (shards.zipIdx.drop erasure.dataShards).filterMap fun slot =>
    slot.1.map fun shard => (slot.2, shard)

def inconsistentSources : DiskError :=
  .other "can not reconstruct data: inconsistent heal source shards"

def compareRebuilt (rebuilt : List (Option Bytes)) (source : Nat × Bytes) : Except DiskError Unit :=
  match (rebuilt[source.1]?).join with
  | none => .error (.other "can not reconstruct data: missing rebuilt parity shard")
  | some shard => if shard ≠ source.2 then .error inconsistentSources else .ok ()

/-- The check of the whole stripe, made when a parity shard was read. -/
def verifySources (codec : Codec) (erasure : Erasure) (source : List (Nat × Bytes))
    (rebuilt : List (Option Bytes)) : Except DiskError Bool :=
  if source.isEmpty then .ok true else verifyDataAndParity codec erasure rebuilt

/-- What the loop of `heal` makes of the shards it read. -/
def rebuild (codec : Codec) (erasure : Erasure) (shards : List (Option Bytes)) :
    Except DiskError (List (Option Bytes)) :=
  if 0 < erasure.parityShards then do
    let source := sourceParity erasure shards
    let rebuilt ← decodeDataAndParity codec erasure shards
    let consistent ← verifySources codec erasure source rebuilt
    if consistent then
      source.forM (compareRebuilt rebuilt)
      pure rebuilt
    else .error inconsistentSources
  else .ok shards

/-- How one asynchronous operation ends: with a value, with an error, or not before
its time is up. -/
inductive Attempt (α ε : Type) where
  | done (value : α)
  | failed (error : ε)
  | elapsed

/-- What each read of a source comes to: the shard it holds, or an error with the
kind the error had before its conversion. -/
abbrev Source := Nat → Attempt Bytes (ErrorKind × DiskError)

structure Reader where
  source : Source
  reads : Nat

/-- What each write to a target and its shutdown come to. -/
structure Target where
  writes : Nat → Attempt Nat DiskError
  shutdown : Attempt Unit DiskError

structure Writer where
  target : Target
  received : List Bytes

structure SlotRead where
  shard : Option Bytes
  err : Option DiskError
  reader : Option Reader

def readTimedOut : DiskError := .io .timedOut "heal shard read timed out"

/-- The read of one slot into a buffer of `shardSize` bytes. -/
def readSlot (shardSize : Nat) : Option Reader → SlotRead
  | none => ⟨none, some .fileNotFound, none⟩
  | some reader =>
    let next : Reader := { reader with reads := reader.reads + 1 }
    match reader.source reader.reads with
    | .done shard => ⟨some (shard.take shardSize), none, some next⟩
    | .failed (kind, error) => ⟨none, some error, if kind = .timedOut then none else some next⟩
    | .elapsed => ⟨none, some readTimedOut, none⟩

/-- `read_heal_shards`: the slots do not depend on each other. -/
def readHealShards (readers : List (Option Reader)) (shardSize : Nat) : List SlotRead :=
  if shardSize = 0 then readers.map fun reader => ⟨none, none, reader⟩
  else readers.map (readSlot shardSize)

structure WriterSlot where
  writer : Option Writer
  err : Option DiskError

def writeShard (slot : WriterSlot) (shard : Bytes) : WriterSlot :=
  match slot.err, slot.writer with
  | some _, _ => slot
  | none, none => ⟨none, some .diskNotFound⟩
  | none, some writer =>
    match writer.target.writes writer.received.length with
    | .done count =>
      if count < shard.length then ⟨none, some .shortWrite⟩
      else ⟨some { writer with received := writer.received ++ [shard] }, none⟩
    | .failed error => ⟨none, some error⟩
    | .elapsed => ⟨none, some .timeout⟩

def shutdownWriter (slot : WriterSlot) : WriterSlot :=
  match slot.err, slot.writer with
  | some _, _ => slot
  | none, none => ⟨none, some .diskNotFound⟩
  | none, some writer =>
    match writer.target.shutdown with
    | .done _ => ⟨some writer, none⟩
    | .failed error => ⟨none, some error⟩
    | .elapsed => ⟨none, some .timeout⟩

/-- What the choice of an error depends on: the order in which the hash map of the
errors is walked, and the text of an error that came from a write to another node
which may be tried again. -/
structure Context where
  walk : Walk
  retryable : DiskError → Option String

/-- How `heal` ends without a result. -/
inductive Stop where
  | failed (error : DiskError)
  | panicked

def healWriteQuorum : Nat := 1

def writeQuorumError (context : Context) (slots : List WriterSlot) : DiskError :=
  (reduceQuorumErrs context.walk (slots.map (·.err)) objectOpIgnoredErrs healWriteQuorum
    .erasureWriteQuorum).getD .erasureWriteQuorum

def healWriterFailure (context : Context) (slots : List WriterSlot) (error : DiskError) :
    DiskError :=
  match slots.findSome? fun slot => slot.err.bind context.retryable with
  | some text => .remoteClientUnavailable text
  | none => error

/-- The quorum check behind a write and behind the shutdown. -/
def settle (context : Context) (slots : List WriterSlot) : Except Stop (List WriterSlot) :=
  if healWriteQuorum ≤ nilCount (slots.map (·.err)) then .ok slots
  else .error (.failed (healWriterFailure context slots (writeQuorumError context slots)))

/-- `MultiWriter::write`; the lengths are asserted to be equal. -/
def writeAll (context : Context) (slots : List WriterSlot) (shards : List Bytes) :
    Except Stop (List WriterSlot) :=
  if shards.length ≠ slots.length then .error .panicked
  else settle context (List.zipWith writeShard slots shards)

structure HealState where
  readers : List (Option Reader)
  slots : List WriterSlot

def blockShardSize (erasure : Erasure) (shardFileSize index : Nat) : Nat :=
  min erasure.shardSize (shardFileSize - index * erasure.shardSize)

section

variable (context : Context) (codec : Codec) (erasure : Erasure)

def healBlock (shardFileSize index : Nat) (state : HealState) : Except Stop HealState :=
  let slots := readHealShards state.readers (blockShardSize erasure shardFileSize index)
  if slots.countP (fun slot => slot.err.isNone) < erasure.dataShards then
    .error (.failed .erasureReadQuorum)
  else
    match rebuild codec erasure (slots.map (·.shard)) with
    | .error error => .error (.failed error)
    | .ok shards => do
        let written ← writeAll context state.slots (shards.map (·.getD []))
        pure ⟨slots.map (·.reader), written⟩

def healBlocks (shardFileSize : Nat) : List Nat → HealState → Except Stop HealState
  | [], state => .ok state
  | index :: rest, state => do
      healBlocks shardFileSize rest (← healBlock context codec erasure shardFileSize index state)

def endBlock (totalLength : Nat) : Nat :=
  if totalLength % erasure.blockSize = 0 then totalLength / erasure.blockSize
  else totalLength / erasure.blockSize + 1

def start (targets : List (Option Target)) (sources : List (Option Source)) : HealState :=
  ⟨sources.map fun source => source.map fun reads => ⟨reads, 0⟩,
    targets.map fun target => ⟨target.map fun writes => ⟨writes, []⟩, none⟩⟩

/-- `Erasure::heal`; what is left of the writers when it returns. -/
def heal (targets : List (Option Target)) (sources : List (Option Source)) (totalLength : Nat) :
    Except Stop (List (Option Writer)) :=
  if targets.length ≠ erasure.parityShards + erasure.dataShards then
    .error (.failed (.other "invalid argument"))
  else do
    let shardFileSize := asUsize (erasure.shardFileSize (asI64 totalLength))
    let healed ← healBlocks context codec erasure shardFileSize
      (List.range (endBlock erasure totalLength)) (start targets sources)
    let closed ← settle context (healed.slots.map shutdownWriter)
    pure (closed.map (·.writer))

end

end Rustfs.Ecstore.Heal

namespace Rustfs.Ecstore

open Option Library Library.Blocks Outcome
open Library.ByteReader (Bytes)

namespace Erasure

theorem per_shard_size_pos (erasure : Erasure) {length : Nat} (filled : 0 < length) :
    0 < erasure.perShardSize length := by
  have holds := erasure.length_le_data_shards length
  apply Nat.pos_of_ne_zero
  intro zero
  rw [zero, Nat.mul_zero] at holds
  omega

theorem per_shard_size_le (erasure : Erasure) (length : Nat) :
    erasure.perShardSize length ≤ 2 * length := by
  have rounded : length ⌈/⌉ erasure.dataShards ≤ length := by
    rw [ceilDiv_le_iff_le_mul erasure.dataPositive]
    exact Nat.le_mul_of_pos_left _ erasure.dataPositive
  unfold perShardSize shardSizeFn
  cases erasure.usesLegacy with
  | false =>
    simp only [Bool.false_eq_true, if_false, calcShardSize]
    omega
  | true =>
    simp only [if_true, calcShardSizeLegacy]
    omega

theorem shard_file_bytes_le (erasure : Erasure) (total : Nat) :
    erasure.shardFileBytes total ≤ 2 * total := by
  have full := erasure.per_shard_size_le erasure.blockSize
  have last := erasure.per_shard_size_le (total % erasure.blockSize)
  calc erasure.shardFileBytes total
      ≤ total / erasure.blockSize * (2 * erasure.blockSize) + 2 * (total % erasure.blockSize) := by
        rw [shardFileBytes, shard_size_eq]
        exact Nat.add_le_add (Nat.mul_le_mul_left _ full) last
    _ = 2 * (total / erasure.blockSize * erasure.blockSize + total % erasure.blockSize) := by
        rw [Nat.mul_add, Nat.mul_left_comm]
    _ = 2 * total := by rw [Nat.div_add_mod']

theorem shard_file_size_back (erasure : Erasure) {total : Nat} (small : total < 2 ^ 63) :
    asUsize (erasure.shardFileSize (asI64 total)) = erasure.shardFileBytes total := by
  have bound := erasure.shard_file_bytes_le total
  rw [as_i64_of_lt small, erasure.shard_file_size_eq small, as_usize_as_i64 (by omega)]

end Erasure

namespace Heal

theorem end_block_eq (erasure : Erasure) (total : Nat) :
    endBlock erasure total = blockCount erasure.blockSize total :=
  (block_count_eq erasure.blockPositive total).symm

variable {index : Nat} {shards : List (Option Bytes)} {target : Option Target} {slot : WriterSlot}

theorem block_shard_size_eq (erasure : Erasure) {total : Nat}
    (inside : index < blockCount erasure.blockSize total) :
    blockShardSize erasure (erasure.shardFileBytes total) index =
      erasure.perShardSize (blockLength erasure.blockSize total index) := by
  have positive := erasure.blockPositive
  rw [lt_block_count_iff positive] at inside
  unfold blockShardSize Erasure.shardFileBytes
  have reached : index ≤ total / erasure.blockSize :=
    (Nat.le_div_iff_mul_le positive).2 inside.le
  rcases Nat.lt_or_eq_of_le reached with before | last
  · have full : (index + 1) * erasure.blockSize ≤ total :=
      (Nat.le_div_iff_mul_le positive).1 before
    have behind : (index + 1) * erasure.shardSize ≤
        total / erasure.blockSize * erasure.shardSize := Nat.mul_le_mul_right _ before
    rw [Nat.succ_mul] at behind
    rw [block_length_full full, ← Erasure.shard_size_eq]
    omega
  · have short : erasure.perShardSize (total % erasure.blockSize) ≤ erasure.shardSize := by
      rw [Erasure.shard_size_eq]
      exact erasure.per_shard_size_mono (Nat.mod_lt total positive).le
    rw [last, block_length_last positive, Nat.add_sub_cancel_left, Nat.min_eq_right short]

/-- What is assumed of the Reed-Solomon library: the parity shards of data shards of
one length are as many as asked for and of that length, and whatever it restores
from enough shards of a stripe are the data shards of that stripe. -/
structure Codec.Sound (codec : Codec) (erasure : Erasure) : Prop where
  parityCount : ∀ slices parity, slices.length = erasure.dataShards →
    codec.recovery erasure.dataShards erasure.parityShards slices = .ok parity →
      parity.length = erasure.parityShards
  paritySize : ∀ slices parity size, slices.length = erasure.dataShards →
    (∀ slice ∈ slices, slice.length = size) →
    codec.recovery erasure.dataShards erasure.parityShards slices = .ok parity →
      ∀ shard ∈ parity, shard.length = size
  restores : ∀ stripe shards restored,
    codec.recovery erasure.dataShards erasure.parityShards (stripe.take erasure.dataShards) =
      .ok (stripe.drop erasure.dataShards) →
    HoldsShards stripe shards → erasure.dataShards ≤ shards.countP Option.isSome →
    codec.reconstructData erasure.dataShards erasure.parityShards shards = .ok restored →
      restored.take erasure.dataShards = (stripe.take erasure.dataShards).map some

/-- A full set of shards of `size` bytes whose parity is the one of its data. -/
structure Stripe (codec : Codec) (erasure : Erasure) (size : Nat) (shards : List Bytes) : Prop where
  count : shards.length = erasure.totalShardCount
  sizes : ∀ shard ∈ shards, shard.length = size
  parity : codec.recovery erasure.dataShards erasure.parityShards
    (shards.take erasure.dataShards) = .ok (shards.drop erasure.dataShards)

section

variable {codec : Codec} {erasure : Erasure} {size : Nat} {stripe : List Bytes}
  {restored rebuilt : List (Option Bytes)}

theorem stripe_of_encoded (sound : codec.Sound erasure) (hasParity : 0 < erasure.parityShards)
    {data : Bytes} (filled : 0 < data.length) {shards : List Bytes}
    (encoded : Erasure.encodeData codec.toReedSolomon erasure data = .ok shards) :
    Stripe codec erasure (erasure.perShardSize data.length) shards := by
  have positive := erasure.per_shard_size_pos filled
  obtain ⟨block, buffered, rfl⟩ := map_eq_ok.1 encoded
  unfold Erasure.encodeBuffer at buffered
  simp only [positive.ne', if_false] at buffered
  obtain ⟨slices, sliced, rfl⟩ := map_eq_ok.1 buffered
  set chunks := chunksExact (erasure.perShardSize data.length)
    (resize (data.take data.length) (erasure.perShardSize data.length * erasure.totalShardCount))
    with cut
  have count : chunks.length = erasure.totalShardCount := by
    rw [cut, chunksExact, List.length_map, List.length_range, Erasure.length_resize]
    exact Nat.mul_div_cancel_left _ positive
  have front : (chunks.take erasure.dataShards).length = erasure.dataShards := by
    rw [List.length_take, count, Erasure.totalShardCount]
    omega
  have chunkSizes : ∀ chunk ∈ chunks.take erasure.dataShards,
      chunk.length = erasure.perShardSize data.length :=
    fun chunk member => length_of_mem_chunks_exact (List.mem_of_mem_take member)
  unfold Erasure.encodeSlices at sliced
  rw [if_pos hasParity] at sliced
  obtain ⟨parity, computed, rfl⟩ := map_eq_ok.1 sliced
  have parityCount := sound.parityCount _ _ front computed
  have total : (chunks.take erasure.dataShards ++ parity).length = erasure.totalShardCount := by
    rw [List.length_append, front, parityCount, Erasure.totalShardCount]
  have whole : EncodedBlock.intoShards
      ⟨chunks.take erasure.dataShards ++ parity, erasure.perShardSize data.length⟩
      erasure.totalShardCount = chunks.take erasure.dataShards ++ parity := by
    rw [EncodedBlock.intoShards, if_neg positive.ne', ← total, List.take_length]
  rw [whole]
  constructor
  · exact total
  · intro shard member
    rcases List.mem_append.1 member with inData | inParity
    · exact chunkSizes shard inData
    · exact sound.paritySize _ _ _ front chunkSizes computed shard inParity
  · rw [List.take_left' front, List.drop_left' front]
    exact computed

theorem collect_shards_ok {purpose : String} {shardLen : Nat}
    {slices : List Bytes} (collected : collectShards purpose shardLen index shards = .ok slices) :
    shards = slices.map some := by
  induction shards generalizing index slices with
  | nil =>
    cases collected
    rfl
  | cons shard rest induction =>
    cases shard with
    | none => cases collected
    | some bytes =>
      unfold collectShards at collected
      split at collected
      · cases collected
      · obtain ⟨others, behind, rfl⟩ := map_eq_ok.1 collected
        rw [induction behind, List.map_cons]

theorem exists_payload {size : Nat} (positive : 0 < size) {stripe : List Bytes}
    (sizes : ∀ shard ∈ stripe, shard.length = size)
    (holds : HoldsShards stripe shards) (present : 0 < shards.countP Option.isSome) :
    shards.any holdsPayload = true := by
  induction holds with
  | nil => simp at present
  | @cons shard slot stripe shards held rest induction =>
    rw [List.any_cons, Bool.or_eq_true]
    rcases held with rfl | rfl
    · right
      apply induction fun other member => sizes other (List.mem_cons_of_mem _ member)
      simpa using present
    · left
      have filled := sizes shard List.mem_cons_self
      cases shard with
      | nil =>
        rw [List.length_nil] at filled
        omega
      | cons byte bytes => rfl

variable {shards : List (Option Bytes)}

theorem reconstruct_data_restores (sound : codec.Sound erasure) (positive : 0 < size)
    (whole : Stripe codec erasure size stripe) (holds : HoldsShards stripe shards)
    (enough : erasure.dataShards ≤ shards.countP Option.isSome)
    (reconstructed : reconstructData codec erasure shards = .ok restored) :
    restored.take erasure.dataShards = (stripe.take erasure.dataShards).map some := by
  have payload := exists_payload positive whole.sizes holds
    (lt_of_lt_of_le erasure.dataPositive enough)
  obtain ⟨recovered, emptied, continued⟩ := bind_eq_ok.1 reconstructed
  unfold recoverEmptyPayloadDataShards at emptied
  split at emptied
  · cases emptied
  · rw [payload, Bool.true_or, if_pos rfl] at emptied
    cases emptied
    dsimp only at continued
    split at continued
    · cases continued
    · exact sound.restores stripe shards restored whole.parity holds enough continued

theorem first_length_restored (whole : Stripe codec erasure size stripe)
    (data : restored.take erasure.dataShards = (stripe.take erasure.dataShards).map some) :
    firstLength restored = some size := by
  have positive := erasure.dataPositive
  have count := whole.count
  rw [Erasure.totalShardCount] at count
  obtain ⟨fewer, several⟩ := Nat.exists_eq_succ_of_ne_zero positive.ne'
  rw [several] at data
  cases stripe with
  | nil =>
    rw [List.length_nil] at count
    omega
  | cons first rest =>
    cases restored with
    | nil => simp at data
    | cons slot slots =>
      rw [List.take_succ_cons, List.take_succ_cons, List.map_cons, List.cons.injEq] at data
      rw [data.1, firstLength, List.findSome?_cons, map_some]
      exact congrArg _ (whole.sizes first List.mem_cons_self)

/-- From the right data shards the parity shards come out right, whatever stood in
their places. -/
theorem encode_parity_stripe (hasParity : 0 < erasure.parityShards) (positive : 0 < size)
    (whole : Stripe codec erasure size stripe) {rebuilt : List (Option Bytes)}
    (data : restored.take erasure.dataShards = (stripe.take erasure.dataShards).map some)
    (encoded : encodeParity codec erasure restored = .ok rebuilt) : rebuilt = stripe.map some := by
  unfold encodeParity at encoded
  split at encoded
  · cases encoded
  · rename_i sameCount
    rw [not_not] at sameCount
    rw [first_length_restored whole data] at encoded
    obtain ⟨slices, collected, continued⟩ := bind_eq_ok.1 encoded
    rw [if_neg positive.ne'] at continued
    obtain ⟨all, sliced, rfl⟩ := map_eq_ok.1 continued
    have front : slices.take erasure.dataShards = stripe.take erasure.dataShards := by
      have filled := congrArg (List.take erasure.dataShards) (collect_shards_ok collected)
      have enough : erasure.dataShards ≤ restored.length := by
        rw [sameCount]
        exact Nat.le_add_right _ _
      rw [fillParity, List.take_left' (by rw [List.length_take, Nat.min_eq_left enough]), data,
        ← List.map_take] at filled
      exact (List.map_injective_iff.2 (some_injective _) filled).symm
    unfold Erasure.encodeSlices at sliced
    rw [if_pos hasParity, front, whole.parity] at sliced
    cases sliced
    exact congrArg _ (List.take_append_drop _ _)

theorem rebuild_ok (hasParity : 0 < erasure.parityShards)
    (done : rebuild codec erasure shards = .ok rebuilt) :
    ∃ restored, reconstructData codec erasure shards = .ok restored ∧
      encodeParity codec erasure restored = .ok rebuilt := by
  unfold rebuild at done
  rw [if_pos hasParity] at done
  obtain ⟨decoded, reconstructed, continued⟩ := bind_eq_ok.1 done
  obtain ⟨consistent, _, compared⟩ := bind_eq_ok.1 continued
  cases consistent with
  | false => cases compared
  | true =>
    obtain ⟨_, _, ⟨⟩⟩ := bind_eq_ok.1 compared
    unfold decodeDataAndParity at reconstructed
    rw [if_pos hasParity] at reconstructed
    exact bind_eq_ok.1 reconstructed

theorem rebuild_count (hasParity : 0 < erasure.parityShards)
    (done : rebuild codec erasure shards = .ok rebuilt) :
    shards.length = erasure.totalShardCount := by
  obtain ⟨_, reconstructed, _⟩ := rebuild_ok hasParity done
  obtain ⟨_, emptied, _⟩ := bind_eq_ok.1 reconstructed
  unfold recoverEmptyPayloadDataShards at emptied
  split at emptied
  · cases emptied
  · rename_i sameCount
    exact not_not.1 sameCount

theorem rebuild_stripe (sound : codec.Sound erasure) (hasParity : 0 < erasure.parityShards)
    (positive : 0 < size) (whole : Stripe codec erasure size stripe)
    (holds : HoldsShards stripe shards) (enough : erasure.dataShards ≤ shards.countP Option.isSome)
    (done : rebuild codec erasure shards = .ok rebuilt) : rebuilt = stripe.map some := by
  obtain ⟨restored, reconstructed, encoded⟩ := rebuild_ok hasParity done
  have data := reconstruct_data_restores sound positive whole holds enough reconstructed
  exact encode_parity_stripe hasParity positive whole data encoded

theorem length_encode_parity (sound : codec.Sound erasure) (hasParity : 0 < erasure.parityShards)
    (encoded : encodeParity codec erasure shards = .ok rebuilt) :
    rebuilt.length = erasure.totalShardCount := by
  unfold encodeParity at encoded
  split at encoded
  · cases encoded
  · rename_i sameCount
    rw [not_not] at sameCount
    split at encoded
    · cases encoded
    · rename_i shardLen _
      have kept : (fillParity erasure shardLen shards).length = erasure.totalShardCount := by
        rw [fillParity, List.length_append, List.length_map, ← List.length_append,
          List.take_append_drop, sameCount]
      obtain ⟨slices, collected, continued⟩ := bind_eq_ok.1 encoded
      split at continued
      · cases continued
        exact kept
      · obtain ⟨all, sliced, rfl⟩ := map_eq_ok.1 continued
        have front : (slices.take erasure.dataShards).length = erasure.dataShards := by
          rw [collect_shards_ok collected, List.length_map] at kept
          rw [List.length_take, kept, Erasure.totalShardCount]
          omega
        unfold Erasure.encodeSlices at sliced
        rw [if_pos hasParity] at sliced
        obtain ⟨parity, computed, rfl⟩ := map_eq_ok.1 sliced
        rw [List.length_map, List.length_append, front, sound.parityCount _ _ front computed,
          Erasure.totalShardCount]

end

def timesOut : Attempt Bytes (ErrorKind × DiskError) → Bool
  | .done _ => false
  | .failed (kind, _) => kind = .timedOut
  | .elapsed => true

def yieldsShard : Attempt Bytes (ErrorKind × DiskError) → Bool
  | .done _ => true
  | _ => false

/-- A read for an earlier block has timed out. -/
def retiredBefore (source : Source) (index : Nat) : Bool :=
  (List.range index).any fun earlier => timesOut (source earlier)

/-- The source is still asked for the block, and answers with a shard. -/
def readable (index : Nat) : Option Source → Bool
  | none => false
  | some source => !retiredBefore source index && yieldsShard (source index)

def readerAt (index : Nat) (slot : Option Source) : Option Reader :=
  slot.bind fun source => if retiredBefore source index then none else some ⟨source, index⟩

theorem retired_before_succ (source : Source) (index : Nat) :
    retiredBefore source (index + 1) = (retiredBefore source index || timesOut (source index)) := by
  rw [retiredBefore, List.range_succ, List.any_append, List.any_cons, List.any_nil, Bool.or_false]
  rfl

/-- What the read of a slot comes to, and that it leaves the reader in front of the
next block. -/
theorem read_slot_at (size index : Nat) (slot : Option Source) :
    (readSlot size (readerAt index slot)).reader = readerAt (index + 1) slot ∧
      (readSlot size (readerAt index slot)).err.isNone = readable index slot ∧
      (readSlot size (readerAt index slot)).shard.isSome = readable index slot ∧
      ∀ bytes, (readSlot size (readerAt index slot)).shard = some bytes →
        ∃ source shard, slot = some source ∧ source index = .done shard ∧
          bytes = shard.take size := by
  cases slot with
  | none => exact ⟨rfl, rfl, rfl, fun _ read => by cases read⟩
  | some source =>
    cases retired : retiredBefore source index with
    | true =>
      have away : readerAt index (some source) = none := by
        rw [readerAt, bind_some, retired, if_pos rfl]
      have still : readerAt (index + 1) (some source) = none := by
        rw [readerAt, bind_some, retired_before_succ, retired, Bool.true_or, if_pos rfl]
      have unread : readable index (some source) = false := by
        rw [readable, retired, Bool.not_true, Bool.false_and]
      rw [away, still, unread]
      exact ⟨rfl, rfl, rfl, fun _ read => by cases read⟩
    | false =>
      have here : readerAt index (some source) = some ⟨source, index⟩ := by
        rw [readerAt, bind_some, retired, if_neg Bool.false_ne_true]
      rw [here, readable, retired, readerAt, bind_some, retired_before_succ, retired,
        readSlot]
      dsimp only
      cases outcome : source index with
      | done shard =>
        refine ⟨rfl, rfl, rfl, ?_⟩
        intro bytes read
        cases read
        exact ⟨source, shard, rfl, outcome, rfl⟩
      | failed failure =>
        refine ⟨?_, rfl, rfl, fun _ read => by cases read⟩
        simp [timesOut]
      | elapsed => exact ⟨rfl, rfl, rfl, fun _ read => by cases read⟩

/-- The target of a slot, while it has not been dropped, has received these shards. A dropped
target may have received a beginning of them. -/
def Kept (target : Option Target) (shards : List (Option Bytes)) (slot : WriterSlot) : Prop :=
  ∀ writer, slot.writer = some writer →
    slot.err = none ∧ target = some writer.target ∧ writer.received.map some = shards

theorem dropped_keeps (target : Option Target) (shards : List (Option Bytes))
    (err : Option DiskError) : Kept target shards ⟨none, err⟩ := by
  intro writer still
  cases still

theorem failed_keeps {before : List (Option Bytes)} (kept : Kept target before slot) {error : DiskError}
    (failed : slot.err = some error) : Kept target shards slot := by
  intro writer still
  have clean := (kept writer still).1
  rw [failed] at clean
  cases clean

theorem write_shard_keeps {before : List (Option Bytes)} (kept : Kept target before slot) (shard : Bytes) :
    Kept target (before ++ [some shard]) (writeShard slot shard) := by
  unfold writeShard
  split
  · rename_i error _ failed
    exact failed_keeps kept failed
  · exact dropped_keeps _ _ _
  · rename_i writer _ held
    obtain ⟨_, same, received⟩ := kept writer held
    split
    · split
      · exact dropped_keeps _ _ _
      · rintro _ ⟨⟩
        exact ⟨rfl, same, by rw [List.map_append, received, List.map_singleton]⟩
    all_goals exact dropped_keeps _ _ _

theorem shutdown_writer_keeps (kept : Kept target shards slot) :
    Kept target shards (shutdownWriter slot) := by
  unfold shutdownWriter
  split
  · exact kept
  · exact dropped_keeps _ _ _
  · rename_i writer _ held
    split
    · rintro _ ⟨⟩
      exact ⟨rfl, (kept writer held).2⟩
    all_goals exact dropped_keeps _ _ _

theorem settle_ok {context : Context} {slots settled : List WriterSlot}
    (done : settle context slots = .ok settled) : settled = slots := by
  unfold settle at done
  split at done
  · cases done
    rfl
  · cases done

theorem settle_ne_panicked (context : Context) (slots : List WriterSlot) :
    settle context slots ≠ .error .panicked := by
  unfold settle
  split
  all_goals rintro ⟨⟩

/-- An object, whose size is an `i64`, with the stripes of its blocks. -/
structure StoredObject (codec : Codec) (erasure : Erasure) where
  data : Bytes
  small : data.length < 2 ^ 63
  stripes : Nat → List Bytes
  encoded : ∀ index < blockCount erasure.blockSize data.length,
    Erasure.encodeData codec.toReedSolomon erasure (block erasure.blockSize data index) =
      .ok (stripes index)

section

variable {context : Context} {codec : Codec} {erasure : Erasure}
  {object : StoredObject codec erasure} {targets : List (Option Target)}
  {sources : List (Option Source)} {state : HealState}

namespace StoredObject

def blocks (object : StoredObject codec erasure) : Nat :=
  blockCount erasure.blockSize object.data.length

/-- Whatever a source yields for a block is its shard of that block. It may also yield an error,
for any block and as often as it likes. -/
def Honest (object : StoredObject codec erasure) (sources : List (Option Source)) : Prop :=
  ∀ index < object.blocks, ∀ (slot : Nat) (source : Source) shard,
    sources[slot]? = some (some source) → source index = .done shard →
      (object.stripes index)[slot]? = some shard

def shardsOf (object : StoredObject codec erasure) (slot count : Nat) : List (Option Bytes) :=
  (List.range count).map fun index => (object.stripes index)[slot]?

theorem shards_of_succ (object : StoredObject codec erasure) (slot count : Nat) :
    object.shardsOf slot (count + 1) =
      object.shardsOf slot count ++ [(object.stripes count)[slot]?] := by
  rw [shardsOf, List.range_succ, List.map_append, List.map_singleton]
  rfl

variable {index : Nat}

theorem block_pos (object : StoredObject codec erasure) (inside : index < object.blocks) :
    0 < (block erasure.blockSize object.data index).length := by
  have positive := erasure.blockPositive
  unfold blocks at inside
  rw [lt_block_count_iff positive] at inside
  rw [length_block, blockLength]
  omega

theorem stripe (object : StoredObject codec erasure) (sound : codec.Sound erasure)
    (hasParity : 0 < erasure.parityShards) (inside : index < object.blocks) :
    Stripe codec erasure
      (blockShardSize erasure (erasure.shardFileBytes object.data.length) index)
      (object.stripes index) := by
  have whole := stripe_of_encoded sound hasParity (object.block_pos inside)
    (object.encoded index inside)
  rw [length_block] at whole
  rw [block_shard_size_eq erasure inside]
  exact whole

theorem shard_size_pos (object : StoredObject codec erasure) (inside : index < object.blocks) :
    0 < blockShardSize erasure (erasure.shardFileBytes object.data.length) index := by
  have positive := object.block_pos inside
  rw [length_block] at positive
  rw [block_shard_size_eq erasure inside]
  exact erasure.per_shard_size_pos positive

end StoredObject

/-- The state in front of a block: every source that is still asked is in step, and
every target that is left has the shards of its slot. -/
structure Healing (object : StoredObject codec erasure) (targets : List (Option Target))
    (sources : List (Option Source)) (index : Nat) (state : HealState) : Prop where
  readers : state.readers = sources.map (readerAt index)
  count : state.slots.length = targets.length
  kept : ∀ slot held, state.slots[slot]? = some held →
    Kept (targets[slot]?).join (object.shardsOf slot index) held

theorem start_healing (object : StoredObject codec erasure) (targets : List (Option Target))
    (sources : List (Option Source)) : Healing object targets sources 0 (start targets sources) := by
  constructor
  · apply List.map_congr_left
    intro slot _
    cases slot with
    | none => rfl
    | some source => rfl
  · rw [start, List.length_map]
  · intro slot held reached
    rw [start, List.getElem?_map, map_eq_some_iff] at reached
    obtain ⟨target, listed, rfl⟩ := reached
    intro writer still
    obtain ⟨writes, rfl, rfl⟩ := map_eq_some_iff.1 still
    rw [listed]
    exact ⟨rfl, rfl, rfl⟩

theorem read_holds {size : Nat} {stripe : List Bytes}
    (sizes : ∀ shard ∈ stripe, shard.length = size) (sameCount : sources.length = stripe.length)
    (honest : ∀ (slot : Nat) (source : Source) shard, sources[slot]? = some (some source) →
      source index = .done shard → stripe[slot]? = some shard) :
    HoldsShards stripe
      (sources.map fun source => (readSlot size (readerAt index source)).shard) := by
  apply List.forall₂_iff_get.2
  refine ⟨by rw [List.length_map, sameCount], ?_⟩
  intro slot inStripe inSources
  rw [List.length_map] at inSources
  rw [List.get_eq_getElem, List.get_eq_getElem, List.getElem_map]
  cases read : (readSlot size (readerAt index sources[slot])).shard with
  | none => exact .inl rfl
  | some bytes =>
    right
    obtain ⟨source, shard, held, outcome, rfl⟩ := (read_slot_at size index _).2.2.2 bytes read
    have listed : sources[slot]? = some (some source) := by
      rw [List.getElem?_eq_getElem inSources, held]
    have encoded := honest slot source shard listed outcome
    rw [List.getElem?_eq_getElem inStripe, Option.some.injEq] at encoded
    have length := sizes stripe[slot] (List.getElem_mem inStripe)
    rw [encoded, ← encoded, List.take_of_length_le (by omega)]

theorem write_all_ok {slots written : List WriterSlot} {shards : List Bytes}
    (done : writeAll context slots shards = .ok written) :
    shards.length = slots.length ∧ written = List.zipWith writeShard slots shards := by
  unfold writeAll at done
  split at done
  · cases done
  · rename_i sameCount
    exact ⟨not_not.1 sameCount, settle_ok done⟩

/-- A block that was healed: enough slots were read, their shards were rebuilt, and
every target was handed one. -/
theorem heal_block_ok {fileSize : Nat} {next : HealState}
    (done : healBlock context codec erasure fileSize index state = .ok next) :
    let slots := readHealShards state.readers (blockShardSize erasure fileSize index)
    erasure.dataShards ≤ slots.countP (fun slot => slot.err.isNone) ∧
      next.readers = slots.map (·.reader) ∧
      ∃ shards, rebuild codec erasure (slots.map (·.shard)) = .ok shards ∧
        (shards.map (·.getD [])).length = state.slots.length ∧
        next.slots = List.zipWith writeShard state.slots (shards.map (·.getD [])) := by
  intro slots
  unfold healBlock at done
  dsimp only at done
  split at done
  · cases done
  · rename_i enough
    split at done
    · cases done
    · rename_i shards rebuilt
      obtain ⟨written, wrote, ⟨⟩⟩ := bind_eq_ok.1 done
      obtain ⟨sameCount, zipped⟩ := write_all_ok wrote
      exact ⟨Nat.not_lt.1 enough, rfl, shards, rebuilt, sameCount, zipped⟩

theorem read_heal_shards_at {size : Nat} (positive : 0 < size) :
    readHealShards (sources.map (readerAt index)) size =
      sources.map fun source => readSlot size (readerAt index source) := by
  rw [readHealShards, if_neg positive.ne', List.map_map]
  rfl

theorem count_readable (size index : Nat) :
    (sources.map fun source => readSlot size (readerAt index source)).countP
        (fun slot => slot.err.isNone) = sources.countP (readable index) := by
  rw [List.countP_map]
  apply List.countP_congr
  intro source _
  rw [Function.comp_apply, (read_slot_at size index source).2.1]

theorem count_read (size index : Nat) :
    (sources.map fun source => (readSlot size (readerAt index source)).shard).countP
        Option.isSome = sources.countP (readable index) := by
  rw [List.countP_map]
  apply List.countP_congr
  intro source _
  rw [Function.comp_apply, (read_slot_at size index source).2.2.1]

theorem heal_block_healing (sound : codec.Sound erasure) (hasParity : 0 < erasure.parityShards)
    (honest : object.Honest sources) (inside : index < object.blocks)
    {next : HealState} (healing : Healing object targets sources index state)
    (done : healBlock context codec erasure (erasure.shardFileBytes object.data.length) index
      state = .ok next) :
    Healing object targets sources (index + 1) next ∧
      erasure.dataShards ≤ sources.countP (readable index) := by
  have positive := object.shard_size_pos inside
  have whole := object.stripe sound hasParity inside
  obtain ⟨enough, readers, shards, rebuilt, sameCount, written⟩ := heal_block_ok done
  rw [healing.readers, read_heal_shards_at positive] at enough readers rebuilt
  rw [count_readable] at enough
  rw [List.map_map] at readers rebuilt
  have counted : sources.length = (object.stripes index).length := by
    have length := rebuild_count hasParity rebuilt
    rw [List.length_map] at length
    rw [length, whole.count]
  have holds := read_holds whole.sizes counted (honest index inside)
  have same := rebuild_stripe sound hasParity positive whole holds
    (by rw [count_read]; exact enough) rebuilt
  have handed : shards.map (·.getD []) = object.stripes index := by
    rw [same, List.map_map]
    exact List.map_id _
  rw [handed] at sameCount written
  refine ⟨⟨?_, ?_, ?_⟩, enough⟩
  · rw [readers]
    apply List.map_congr_left
    intro source _
    exact (read_slot_at _ index source).1
  · rw [written, List.length_zipWith, sameCount, min_self, healing.count]
  · intro slot held reached
    rw [written, List.getElem?_zipWith_eq_some] at reached
    obtain ⟨former, shard, listed, placed, rfl⟩ := reached
    rw [object.shards_of_succ, placed]
    exact write_shard_keeps (healing.kept slot former listed) shard

theorem heal_block_ne_panicked (sound : codec.Sound erasure)
    (hasParity : 0 < erasure.parityShards) {fileSize : Nat}
    (count : state.slots.length = erasure.totalShardCount) :
    healBlock context codec erasure fileSize index state ≠ .error .panicked := by
  intro panicked
  unfold healBlock at panicked
  dsimp only at panicked
  split at panicked
  · cases panicked
  · split at panicked
    · cases panicked
    · rename_i shards rebuilt
      obtain ⟨restored, _, encoded⟩ := rebuild_ok hasParity rebuilt
      have length := length_encode_parity sound hasParity encoded
      rw [writeAll, if_neg (by rw [List.length_map, length, count]; exact fun wrong => wrong rfl)]
        at panicked
      cases settled : settle context (List.zipWith writeShard state.slots
          (shards.map (·.getD []))) with
      | ok written =>
        rw [settled] at panicked
        cases panicked
      | error stop =>
        rw [settled] at panicked
        cases panicked
        exact settle_ne_panicked _ _ settled

theorem heal_blocks_cons (fileSize index : Nat) (rest : List Nat) (state : HealState) :
    healBlocks context codec erasure fileSize (index :: rest) state =
      healBlock context codec erasure fileSize index state >>=
        healBlocks context codec erasure fileSize rest := rfl

/-- From a state in step the loop ends in step, after blocks that all had enough
sources, or with an error. -/
theorem heal_blocks_healing (sound : codec.Sound erasure) (hasParity : 0 < erasure.parityShards)
    (honest : object.Honest sources) (all : targets.length = erasure.totalShardCount)
    (count index : Nat) (inside : index + count ≤ object.blocks)
    (healing : Healing object targets sources index state) :
    (∃ final, healBlocks context codec erasure (erasure.shardFileBytes object.data.length)
        (List.range' index count) state = .ok final ∧
        Healing object targets sources (index + count) final ∧
        ∀ block, index ≤ block → block < index + count →
          erasure.dataShards ≤ sources.countP (readable block)) ∨
      ∃ error, healBlocks context codec erasure (erasure.shardFileBytes object.data.length)
        (List.range' index count) state = .error (.failed error) := by
  induction count generalizing index state with
  | zero => exact .inl ⟨state, rfl, healing, fun block low high => by omega⟩
  | succ count induction =>
    rw [List.range'_succ, heal_blocks_cons]
    cases done : healBlock context codec erasure (erasure.shardFileBytes object.data.length) index
        state with
    | error stop =>
      cases stop with
      | failed error => exact .inr ⟨error, rfl⟩
      | panicked =>
        exact absurd done
          (heal_block_ne_panicked sound hasParity (healing.count.trans all))
    | ok next =>
      obtain ⟨stepped, enough⟩ :=
        heal_block_healing sound hasParity honest (by omega) healing done
      rcases induction (index + 1) (by omega) stepped with ⟨final, ran, kept, each⟩ | failed
      · left
        rw [Nat.add_assoc, Nat.add_comm 1] at kept
        refine ⟨final, ran, kept, ?_⟩
        intro block low high
        rcases Nat.lt_or_eq_of_le low with later | rfl
        · exact each block later (by omega)
        · exact enough
      · exact .inr failed

end

/-- Healing an object with parity from sources that yield, per block, their own shard
or an error. When it returns, a target that was never dropped has received its shard of
every block and nothing else; a block with too few readable sources makes it fail. -/
theorem heal_rebuilds_shards (context : Context) (codec : Codec) (erasure : Erasure)
    (hasParity : 0 < erasure.parityShards) (sound : codec.Sound erasure)
    (object : StoredObject codec erasure) (targets : List (Option Target))
    (sources : List (Option Source)) (honest : object.Honest sources) :
    (∀ writers, heal context codec erasure targets sources object.data.length = .ok writers →
        ∀ (slot : Nat) writer, writers[slot]? = some (some writer) →
          targets[slot]? = some (some writer.target) ∧
            writer.received.map some =
              (List.range object.blocks).map fun index => (object.stripes index)[slot]?) ∧
      ∀ index < object.blocks, sources.countP (readable index) < erasure.dataShards →
        ∃ error, heal context codec erasure targets sources object.data.length =
          .error (.failed error) := by
  unfold heal
  split
  · exact ⟨(fun _ done => by cases done), fun _ _ _ => ⟨_, rfl⟩⟩
  · rename_i sameCount
    rw [not_not, Nat.add_comm] at sameCount
    have range : List.range (endBlock erasure object.data.length) =
        List.range' 0 object.blocks := by
      rw [end_block_eq, List.range_eq_range']
      rfl
    dsimp only
    rw [erasure.shard_file_size_back object.small, range]
    rcases heal_blocks_healing sound hasParity honest sameCount object.blocks 0 (by omega)
      (start_healing object targets sources) with ⟨final, ran, healing, each⟩ | ⟨error, ran⟩
    · rw [Nat.zero_add] at healing each
      rw [ran, Outcome.ok_bind]
      constructor
      · intro writers done slot writer still
        obtain ⟨closed, settled, ⟨⟩⟩ := Outcome.bind_eq_ok.1 done
        rw [settle_ok settled, List.getElem?_map, List.getElem?_map, Option.map_map,
          map_eq_some_iff] at still
        obtain ⟨held, listed, written⟩ := still
        obtain ⟨_, same, received⟩ :=
          shutdown_writer_keeps (healing.kept slot held listed) writer written
        exact ⟨join_eq_some_iff.1 same, received⟩
      · intro index reached few
        have enough := each index (Nat.zero_le _) reached
        omega
    · rw [ran]
      exact ⟨(fun _ done => by cases done), fun _ _ _ => ⟨error, rfl⟩⟩

def mirrorErasure : Erasure := ⟨1, 2, 2, false, Nat.one_pos, Nat.two_pos⟩

def mirrorCodec : Codec where
  recovery _ parity slices :=
    match slices with
    | [] => .error (.other "TooFewDataShards")
    | slice :: _ => .ok (List.replicate parity slice)
  reconstructData count _ shards :=
    match shards.findSome? id with
    | none => .error (.other "TooFewShardsPresent")
    | some shard => .ok (List.replicate count (some shard) ++ shards.drop count)
  verify _ _ shards := .ok (shards.all fun shard => shard = shards.headD [])

theorem first_held {shard held : Bytes} {stripe : List Bytes} {slots : List (Option Bytes)}
    (copies : ∀ other ∈ stripe, other = shard) (holds : HoldsShards stripe slots)
    (found : slots.findSome? id = some held) : held = shard := by
  obtain ⟨slot, member, same⟩ := List.exists_of_findSome?_eq_some found
  obtain ⟨index, inside, rfl⟩ := List.getElem_of_mem member
  obtain ⟨sameCount, each⟩ := List.forall₂_iff_get.1 holds
  have inStripe : index < stripe.length := by omega
  have equal := copies stripe[index] (List.getElem_mem inStripe)
  rcases each index inStripe inside with missing | present
  · rw [List.get_eq_getElem] at missing
    rw [missing] at same
    cases same
  · rw [List.get_eq_getElem, List.get_eq_getElem] at present
    rw [present, equal] at same
    cases same
    rfl

theorem mirror_codec_sound : mirrorCodec.Sound mirrorErasure := by
  constructor
  · intro slices parity count computed
    cases slices with
    | nil => cases count
    | cons slice rest =>
      cases computed
      rfl
  · intro slices parity size count sizes computed shard member
    cases slices with
    | nil => cases count
    | cons slice rest =>
      cases computed
      rw [List.eq_of_mem_replicate member]
      exact sizes slice List.mem_cons_self
  · intro stripe shards restored parity holds _ done
    cases stripe with
    | nil => cases parity
    | cons first rest =>
      have copies : ∀ other ∈ first :: rest, other = first := by
        have drawn : List.replicate 2 first = rest := Except.ok.inj parity
        intro other member
        rcases List.mem_cons.1 member with same | behind
        · exact same
        · rw [← drawn] at behind
          exact List.eq_of_mem_replicate behind
      change (match shards.findSome? id with
        | none => .error (DiskError.other "TooFewShardsPresent")
        | some shard => .ok (List.replicate 1 (some shard) ++ shards.drop 1)) =
          Except.ok restored at done
      cases found : shards.findSome? id with
      | none =>
        rw [found] at done
        cases done
      | some held =>
        rw [found] at done
        cases done
        rw [first_held copies holds found]
        rfl

def mirrorStripes (index : Nat) : List Bytes :=
  if index = 0 then [[1, 2], [1, 2], [1, 2]] else [[3], [3], [3]]

theorem mirror_small : ([1, 2, 3] : Bytes).length < 2 ^ 63 := by decide

theorem mirror_encoded : ∀ index < blockCount mirrorErasure.blockSize ([1, 2, 3] : Bytes).length,
    Erasure.encodeData mirrorCodec.toReedSolomon mirrorErasure
      (block mirrorErasure.blockSize [1, 2, 3] index) = .ok (mirrorStripes index) := by
  intro index inside
  have bound : index < 2 := inside
  interval_cases index
  all_goals rfl

def mirrored : StoredObject mirrorCodec mirrorErasure :=
  ⟨[1, 2, 3], mirror_small, mirrorStripes, mirror_encoded⟩

/-- The first drive is empty, the third one stops answering. -/
def mirrorSources : List (Option Source) :=
  [none, some fun index => .done (if index = 0 then [1, 2] else [3]),
    some fun index => if index = 0 then .done [1, 2] else .elapsed]

/-- Besides the first drive the third one is written to, until it fails. -/
def mirrorTargets : List (Option Target) :=
  [some ⟨fun _ => .done 2, .done ()⟩, none,
    some ⟨fun index => if index = 0 then .done 2 else .failed .faultyDisk, .done ()⟩]

theorem mirror_honest : mirrored.Honest mirrorSources := by
  intro index inside slot source shard listed outcome
  have bound : index < 2 := inside
  have few : slot < 3 := (List.getElem?_eq_some_iff.1 listed).1
  interval_cases slot
  · cases listed
  · cases listed
    cases outcome
    interval_cases index
    all_goals rfl
  · cases listed
    interval_cases index
    · cases outcome
      rfl
    · cases outcome

theorem heal_rebuilds_shards_mirrored :
    ∃ writers writer, heal ⟨.sorted, fun _ => none⟩ mirrorCodec mirrorErasure mirrorTargets
        mirrorSources mirrored.data.length = .ok writers ∧
      writers[0]? = some (some writer) ∧ writers[2]? = some none ∧
      writer.received.map some = [some [1, 2], some [3]] := by
  refine ⟨_, _, rfl, rfl, rfl, ?_⟩
  exact ((heal_rebuilds_shards ⟨.sorted, fun _ => none⟩ mirrorCodec mirrorErasure Nat.two_pos
    mirror_codec_sound mirrored mirrorTargets mirrorSources mirror_honest).1 _ rfl 0 _ rfl).2

end Heal

end Rustfs.Ecstore
