import Rustfs.Library.MachineInt
import Rustfs.Library.Varint
import Rustfs.Library.Outcome
import Rustfs.Library.ByteReader
import Rustfs.Library.BinarySearch
import Mathlib.Data.List.Pairwise
import Mathlib.Algebra.BigOperators.Group.List.Basic

/-!
# The index of a compressed stream

`Index` of `rio/src/compress_index.rs`: the entries that are added while a stream is compressed,
their reduction, the stored form and how it is loaded. Arithmetic on read values wraps. The JSON
form and the loading from a stream are left out, as are the bytes of the blocks.
-/

namespace Rustfs.Rio

open List Library
open Library.ByteReader (Bytes)

inductive IoErrorKind
  | invalidData
  | unexpectedEof
  | other
  deriving DecidableEq

structure IoError where
  kind : IoErrorKind
  message : String
  deriving DecidableEq

def maxIndexEntries : Nat := 65536

def minIndexDist : Int := 1048576

def s2IndexHeader : Bytes := [0x73, 0x32, 0x69, 0x64, 0x78, 0x00]

def s2IndexTrailer : Bytes := [0x00, 0x78, 0x64, 0x69, 0x32, 0x73]

def legacyIndexHeaderPadding : Bytes := [0, 0, 0]

structure IndexInfo where
  compressedOffset : Int
  uncompressedOffset : Int
  deriving DecidableEq

structure Index where
  totalUncompressed : Int
  totalCompressed : Int
  info : List IndexInfo
  estBlockUncomp : Int
  deriving DecidableEq

/-- The buffer has room for eight bytes. Of a negative value only the lowest byte is written. -/
def writeVarint (v : Int) : Option Bytes :=
  if v < 0 then some [UInt8.ofNat (v % 256).toNat] else Varint.encode 8 v.toNat

def readVarint (buf : Bytes) : Except IoError (Int × Bytes) :=
  match Varint.decodeFrom 0 0 buf with
  | some (result, rest) => .ok (asI64 result, rest)
  | none => .error ⟨.unexpectedEof, "unexpected EOF"⟩

namespace Index

def new : Index := ⟨-1, -1, [], 0⟩

def add (index : Index) (compressedOffset uncompressedOffset : Int) : Except IoError Index :=
  match index.info.getLast? with
  | none => .ok { index with info := [⟨compressedOffset, uncompressedOffset⟩] }
  | some latest =>
    if latest.uncompressedOffset = uncompressedOffset then
      .ok { index with info := index.info.dropLast ++
        [{ latest with compressedOffset := compressedOffset }] }
    else if uncompressedOffset < latest.uncompressedOffset then
      .error ⟨.invalidData, "internal error: Earlier uncompressed received (" ++
        toString latest.uncompressedOffset ++ " > " ++ toString uncompressedOffset ++ ")"⟩
    else if compressedOffset < latest.compressedOffset then
      .error ⟨.invalidData, "internal error: Earlier compressed received (" ++
        toString latest.compressedOffset ++ " > " ++ toString compressedOffset ++ ")"⟩
    else if uncompressedOffset < latest.uncompressedOffset + minIndexDist then .ok index
    else
      .ok { index with
        info := index.info ++ [⟨compressedOffset, uncompressedOffset⟩]
        totalCompressed := compressedOffset
        totalUncompressed := uncompressedOffset }

/-- The loop that counts how many entries are left out after each one; it ends before the count
reaches the number of entries. -/
def removeCount (estBlockUncomp : Int) (entries : Nat) : Nat → Nat → Nat
  | 0, removeN => removeN
  | fuel + 1, removeN =>
    if estBlockUncomp * (removeN + 1) < minIndexDist ∧ 1000 < entries / (removeN + 1) then
      removeCount estBlockUncomp entries fuel (removeN + 1)
    else removeN

/-- Every item after `left` others, with `removeN` left out after each. -/
def keepEvery {α : Type} (removeN : Nat) : Nat → List α → List α
  | _, [] => []
  | 0, item :: rest => item :: keepEvery removeN removeN rest
  | left + 1, _ :: rest => keepEvery removeN left rest

def reduce (index : Index) : Index :=
  if index.info.length < maxIndexEntries ∧ minIndexDist ≤ index.estBlockUncomp then index
  else
    let removeN := removeCount index.estBlockUncomp index.info.length index.info.length
      ((index.info.length + 1) / maxIndexEntries)
    { index with
      info := keepEvery removeN 0 index.info
      estBlockUncomp := index.estBlockUncomp + index.estBlockUncomp * removeN }

def failed (message : String) : IoError := ⟨.other, message⟩

def outOfBounds : IoError := ⟨.unexpectedEof, "offset out of bounds"⟩

/-- The loop over the entries up to the first one that is past the offset. -/
def lastBefore (offset : Int) : Int × Int → List IndexInfo → Int × Int
  | found, [] => found
  | found, info :: rest =>
    if offset < info.uncompressedOffset then found
    else lastBefore offset (info.compressedOffset, info.uncompressedOffset) rest

def find (index : Index) (offset : Int) : Except IoError (Int × Int) :=
  if index.totalUncompressed < 0 then .error (failed "corrupt index")
  else
    let offset := if offset < 0 then offset + index.totalUncompressed else offset
    if offset < 0 then .error outOfBounds
    else if index.totalUncompressed < offset then .error outOfBounds
    else
      match index.info with
      | [] => .error ⟨.unexpectedEof, "empty index"⟩
      | first :: _ =>
        if 200 < index.info.length then
          let n := BinarySearch.insertionPoint (fun info => offset < info.uncompressedOffset) index.info
          if n = 0 then .ok (first.compressedOffset, first.uncompressedOffset)
          else
            let info := index.info.getD (n - 1) first
            .ok (info.compressedOffset, info.uncompressedOffset)
        else .ok (lastBefore offset (0, 0) index.info)

/-- The differences to the entry before and the estimated block. -/
def uncompressedSteps (estBlockUncomp : Int) : Option Int → List IndexInfo → List Int
  | _, [] => []
  | none, info :: rest =>
    info.uncompressedOffset :: uncompressedSteps estBlockUncomp (some info.uncompressedOffset) rest
  | some prev, info :: rest =>
    (info.uncompressedOffset - (prev + estBlockUncomp)) ::
      uncompressedSteps estBlockUncomp (some info.uncompressedOffset) rest

/-- The differences to the entry before and a prediction, which moves by half of each. -/
def compressedSteps : Option Int → Int → List IndexInfo → List Int
  | _, _, [] => []
  | none, cPredict, info :: rest =>
    info.compressedOffset :: compressedSteps (some info.compressedOffset) cPredict rest
  | some prev, cPredict, info :: rest =>
    let cOff := info.compressedOffset - (prev + cPredict)
    cOff :: compressedSteps (some info.compressedOffset) (cPredict + cOff.tdiv 2) rest

def hasUncompressed (estBlockUncomp : Int) (info : List IndexInfo) : Bool :=
  (uncompressedSteps estBlockUncomp none info).any fun step => step ≠ 0

def writeAll : List Int → Option Bytes
  | [] => some []
  | value :: rest => do
      let bytes ← writeVarint value
      let others ← writeAll rest
      some (bytes ++ others)

def writeSteps (flag : Bool) (steps : List Int) : Option Bytes :=
  if flag then writeAll steps else some []

/-- From the header to the compressed offsets. -/
def body (index : Index) (uncompTotal compTotal : Int) : Option Bytes := do
  let totals ← writeAll [uncompTotal, compTotal, index.estBlockUncomp, index.info.length]
  let flag := hasUncompressed index.estBlockUncomp index.info
  let uncompressed ← writeSteps flag (uncompressedSteps index.estBlockUncomp none index.info)
  let compressed ← writeAll (compressedSteps none (index.estBlockUncomp.tdiv 2) index.info)
  some (s2IndexHeader ++ totals ++ [if flag then 1 else 0] ++ uncompressed ++ compressed)

def byteAt (n place : Nat) : UInt8 := UInt8.ofNat (n / 256 ^ place % 256)

/-- The skippable chunk; its length is written back into bytes 1 to 3. -/
def chunk (body : Bytes) : Bytes :=
  let chunkLen := body.length + 4 + s2IndexTrailer.length
  let totalSize := (4 + body.length + 4 + s2IndexTrailer.length) % 2 ^ 32
  [0x50, byteAt chunkLen 0, byteAt chunkLen 1, byteAt chunkLen 2] ++ body ++
    [byteAt totalSize 0, byteAt totalSize 1, byteAt totalSize 2, byteAt totalSize 3] ++
    s2IndexTrailer

def appendTo (index : Index) (b : Bytes) (uncompTotal compTotal : Int) : Option Bytes :=
  (index.reduce.body uncompTotal compTotal).map fun body => b ++ chunk body

def intoVec (index : Index) : Option Bytes :=
  index.appendTo [] index.totalUncompressed index.totalCompressed

def tooSmall : IoError := ⟨.unexpectedEof, "buffer too small"⟩

/-- Without the flag no uncompressed offsets are stored. -/
def readStep (flag : Bool) (b : Bytes) : Except IoError (Int × Bytes) :=
  if flag then readVarint b else .ok (0, b)

def loadUncompressed (estBlockUncomp : Int) (flag : Bool) :
    Nat → Option Int → Bytes → Except IoError (List Int × Bytes)
  | 0, _, b => .ok ([], b)
  | entries + 1, prev, b => do
      let (v, b) ← readStep flag b
      let uOff := prev.elim v fun prev => wrapI64 (v + wrapI64 (prev + estBlockUncomp))
      if prev.any fun prev => uOff ≤ prev then .error (failed "invalid offset")
      else if uOff < 0 then .error (failed "negative offset")
      else
        let (rest, b) ← loadUncompressed estBlockUncomp flag entries (some uOff) b
        .ok (uOff :: rest, b)

def loadCompressed : Nat → Option Int → Int → Bytes → Except IoError (List Int × Bytes)
  | 0, _, _, b => .ok ([], b)
  | entries + 1, prev, cPredict, b => do
      let (v, b) ← readVarint b
      let cOff := prev.elim v fun prev => wrapI64 (v + wrapI64 (prev + cPredict))
      let nextCPredict := prev.elim cPredict fun _ => wrapI64 (cPredict + v.tdiv 2)
      if prev.any fun prev => cOff ≤ prev then .error (failed "invalid offset")
      else if cOff < 0 then .error (failed "negative offset")
      else
        let (rest, b) ← loadCompressed entries (some cOff) nextCPredict b
        .ok (cOff :: rest, b)

/-- A number that must not be negative. -/
def loadSize (message : String) (b : Bytes) : Except IoError (Int × Bytes) := do
  let (v, b) ← readVarint b
  if v < 0 then .error (failed message) else .ok (v, b)

def loadTrailer (b : Bytes) : Except IoError Bytes :=
  if b.length < 4 + s2IndexTrailer.length then .error tooSmall
  else if !s2IndexTrailer.isPrefixOf (b.drop 4) then .error (failed "invalid trailer")
  else .ok (b.drop (4 + s2IndexTrailer.length))

def loadBody (b : Bytes) : Except IoError (Index × Bytes) := do
  let (totalUncompressed, b) ← loadSize "invalid uncompressed size" b
  let (totalCompressed, b) ← loadSize "invalid compressed size" b
  let (estBlockUncomp, b) ← loadSize "invalid block size" b
  let (entries, b) ← readVarint b
  if entries < 0 ∨ maxIndexEntries < entries then .error (failed "invalid number of entries")
  else
    match b with
    | [] => .error tooSmall
    | flag :: b =>
      if flag &&& 1 ≠ flag then .error (failed "invalid uncompressed flag")
      else
        let (uncompressed, b) ← loadUncompressed estBlockUncomp (flag ≠ 0) entries.toNat none b
        let (compressed, b) ← loadCompressed entries.toNat none (estBlockUncomp.tdiv 2) b
        let rest ← loadTrailer b
        .ok (⟨totalUncompressed, totalCompressed,
          List.zipWith IndexInfo.mk compressed uncompressed, estBlockUncomp⟩, rest)

def load (b : Bytes) : Except IoError (Index × Bytes) :=
  if b.length ≤ 4 + s2IndexHeader.length + s2IndexTrailer.length then .error tooSmall
  else
    match b with
    | marker :: low :: middle :: high :: b =>
      if marker ≠ 0x50 then .error (failed "invalid chunk type")
      else if b.length < low.toNat + middle.toNat * 256 + high.toNat * 65536 then .error tooSmall
      else
        let b := if legacyIndexHeaderPadding.isPrefixOf b then
          b.drop legacyIndexHeaderPadding.length else b
        if !s2IndexHeader.isPrefixOf b then .error (failed "invalid header")
        else loadBody (b.drop s2IndexHeader.length)
    | _ => .error tooSmall

end Index

/-- A block as `build_compressed_block` puts it out: neither side is empty. -/
structure CompressedBlock where
  stored : Nat
  plaintext : Nat
  storedPos : 0 < stored
  plaintextPos : 0 < plaintext

def storedSize (blocks : List CompressedBlock) : Nat := (blocks.map CompressedBlock.stored).sum

def plaintextSize (blocks : List CompressedBlock) : Nat := (blocks.map CompressedBlock.plaintext).sum

@[simp] theorem stored_size_cons (block : CompressedBlock) (blocks : List CompressedBlock) :
    storedSize (block :: blocks) = block.stored + storedSize blocks := sum_cons

@[simp] theorem plaintext_size_cons (block : CompressedBlock) (blocks : List CompressedBlock) :
    plaintextSize (block :: blocks) = block.plaintext + plaintextSize blocks := sum_cons

@[simp] theorem stored_size_append (front back : List CompressedBlock) :
    storedSize (front ++ back) = storedSize front + storedSize back := by
  simp [storedSize]

@[simp] theorem plaintext_size_append (front back : List CompressedBlock) :
    plaintextSize (front ++ back) = plaintextSize front + plaintextSize back := by
  simp [plaintextSize]

def blockEnds (written uncompWritten : Nat) : List CompressedBlock → List IndexInfo
  | [] => []
  | block :: rest =>
    ⟨(written + block.stored : Nat), (uncompWritten + block.plaintext : Nat)⟩ ::
      blockEnds (written + block.stored) (uncompWritten + block.plaintext) rest

theorem block_ends_cons (block : CompressedBlock) (rest : List CompressedBlock)
    (written uncompWritten : Nat) :
    blockEnds written uncompWritten (block :: rest) =
      ⟨(written + block.stored : Nat), (uncompWritten + block.plaintext : Nat)⟩ ::
        blockEnds (written + block.stored) (uncompWritten + block.plaintext) rest := rfl

theorem block_ends_length (blocks : List CompressedBlock) (written uncompWritten : Nat) :
    (blockEnds written uncompWritten blocks).length = blocks.length := by
  induction blocks generalizing written uncompWritten with
  | nil => rfl
  | cons block blocks ih => rw [block_ends_cons, length_cons, ih, length_cons]

variable {blocks : List CompressedBlock}

theorem block_ends_mem {written uncompWritten : Nat}
    {info : IndexInfo} (member : info ∈ blockEnds written uncompWritten blocks) :
    ∃ front back, blocks = front ++ back ∧ 0 < storedSize front ∧ 0 < plaintextSize front ∧
      info = ⟨(written + storedSize front : Nat), (uncompWritten + plaintextSize front : Nat)⟩ := by
  induction blocks generalizing written uncompWritten with
  | nil => cases member
  | cons block blocks ih =>
    have stored := block.storedPos
    have plaintext := block.plaintextPos
    rcases mem_cons.1 member with rfl | member
    · refine ⟨[block], blocks, rfl, ?_, ?_, ?_⟩
      · simpa [storedSize] using stored
      · simpa [plaintextSize] using plaintext
      · simp [storedSize, plaintextSize]
    · obtain ⟨front, back, rfl, _, _, rfl⟩ := ih member
      refine ⟨block :: front, back, rfl, ?_, ?_, ?_⟩
      · rw [stored_size_cons]
        omega
      · rw [plaintext_size_cons]
        omega
      · rw [stored_size_cons, plaintext_size_cons, Nat.add_assoc, Nat.add_assoc]

theorem block_ends_increasing (blocks : List CompressedBlock) (written uncompWritten : Nat) :
    (blockEnds written uncompWritten blocks).Pairwise fun earlier later =>
      earlier.uncompressedOffset < later.uncompressedOffset := by
  induction blocks generalizing written uncompWritten with
  | nil => exact .nil
  | cons block blocks ih =>
    rw [block_ends_cons, pairwise_cons]
    refine ⟨fun later member => ?_, ih _ _⟩
    obtain ⟨front, _, _, _, positive, rfl⟩ := block_ends_mem member
    dsimp only
    omega

/-- What `CompressReader` counts while it puts out blocks. -/
structure IndexedBlocks where
  written : Nat
  uncompWritten : Nat
  index : Index

def IndexedBlocks.new : IndexedBlocks := ⟨0, 0, Index.new⟩

def IndexedBlocks.addBlock (counted : IndexedBlocks) (block : CompressedBlock) :
    Except IoError IndexedBlocks := do
  let written := counted.written + block.stored
  let uncompWritten := counted.uncompWritten + block.plaintext
  let index ← counted.index.add written uncompWritten
  .ok ⟨written, uncompWritten, index⟩

def IndexedBlocks.addBlocks (blocks : List CompressedBlock) (counted : IndexedBlocks) :
    Except IoError IndexedBlocks :=
  blocks.foldlM IndexedBlocks.addBlock counted

theorem block_ends_concat (blocks : List CompressedBlock) (block : CompressedBlock)
    (written uncompWritten : Nat) :
    blockEnds written uncompWritten (blocks ++ [block]) =
      blockEnds written uncompWritten blocks ++
        [⟨(written + storedSize blocks + block.stored : Nat),
          (uncompWritten + plaintextSize blocks + block.plaintext : Nat)⟩] := by
  induction blocks generalizing written uncompWritten with
  | nil => rfl
  | cons first blocks ih =>
    rw [cons_append, block_ends_cons, block_ends_cons, ih, cons_append]
    simp only [stored_size_cons, plaintext_size_cons, Nat.add_assoc]

theorem add_entries {index next : Index} {compressedOffset uncompressedOffset : Int}
    (added : index.add compressedOffset uncompressedOffset = .ok next) :
    next.info.Sublist (index.info ++ [⟨compressedOffset, uncompressedOffset⟩]) := by
  unfold Index.add at added
  split at added
  · cases added
    exact sublist_append_right _ _
  · split at added
    · rename_i same
      cases added
      rw [same]
      exact (dropLast_sublist index.info).append (List.Sublist.refl _)
    · split at added
      · cases added
      · split at added
        · cases added
        · split at added
          · cases added
            exact sublist_append_left _ _
          · cases added
            exact List.Sublist.refl _

structure Counts (blocks : List CompressedBlock) (counted : IndexedBlocks) : Prop where
  written : counted.written = storedSize blocks
  uncompWritten : counted.uncompWritten = plaintextSize blocks
  entries : counted.index.info.Sublist (blockEnds 0 0 blocks)

theorem add_block_counts {counted next : IndexedBlocks}
    {block : CompressedBlock} (counts : Counts blocks counted)
    (added : counted.addBlock block = .ok next) : Counts (blocks ++ [block]) next := by
  obtain ⟨index, isIndex, same⟩ := Outcome.bind_eq_ok.1 added
  cases same
  refine ⟨?_, ?_, ?_⟩
  · simp [storedSize, counts.written]
  · simp [plaintextSize, counts.uncompWritten]
  · rw [block_ends_concat, Nat.zero_add, Nat.zero_add, ← counts.written, ← counts.uncompWritten]
    exact (add_entries isIndex).trans (counts.entries.append (List.Sublist.refl _))

theorem indexed_blocks_entries {counted : IndexedBlocks}
    (added : IndexedBlocks.addBlocks blocks .new = .ok counted) :
    counted.index.info.Sublist (blockEnds 0 0 blocks) := by
  have continued (done rest : List CompressedBlock) (before : IndexedBlocks)
      (counts : Counts done before) (added : IndexedBlocks.addBlocks rest before = .ok counted) :
      Counts (done ++ rest) counted := by
    induction rest generalizing done before with
    | nil =>
      cases added
      rwa [append_nil]
    | cons block rest ih =>
      obtain ⟨next, isNext, later⟩ := Outcome.bind_eq_ok.1 added
      rw [append_cons]
      exact ih (done ++ [block]) next (add_block_counts counts isNext) later
  exact (continued [] blocks .new ⟨rfl, rfl, .slnil⟩ added).entries

section Search

variable {index : Index} {offset : Int} {first : IndexInfo} {rest : List IndexInfo}

theorem find_unreached (natural : 0 ≤ offset)
    (unreached : index.totalUncompressed < offset ∨ index.info = []) :
    ∃ error, index.find offset = .error error := by
  unfold Index.find
  split
  · exact ⟨_, rfl⟩
  · rw [if_neg (Int.not_lt.2 natural), if_neg (Int.not_lt.2 natural)]
    rcases unreached with late | empty
    · rw [if_pos late]
      exact ⟨_, rfl⟩
    · split
      · exact ⟨_, rfl⟩
      · rw [empty]
        exact ⟨_, rfl⟩

theorem find_reached (natural : 0 ≤ offset)
    (reached : offset ≤ index.totalUncompressed) (entries : index.info = first :: rest) :
    index.find offset =
      if 200 < index.info.length then
        let n := BinarySearch.insertionPoint (fun info => offset < info.uncompressedOffset) index.info
        if n = 0 then .ok (first.compressedOffset, first.uncompressedOffset)
        else
          let info := index.info.getD (n - 1) first
          .ok (info.compressedOffset, info.uncompressedOffset)
      else .ok (Index.lastBefore offset (0, 0) index.info) := by
  unfold Index.find
  dsimp only
  rw [if_neg (Int.not_lt.2 (natural.trans reached)), if_neg (Int.not_lt.2 natural),
    if_neg (Int.not_lt.2 natural), if_neg (Int.not_lt.2 reached), entries]

theorem last_before_append {front back : List IndexInfo} {found : Int × Int}
    (before : ∀ info ∈ front, info.uncompressedOffset ≤ offset)
    (after : ∀ info ∈ back, offset < info.uncompressedOffset) :
    Index.lastBefore offset found (front ++ back) =
      front.getLast?.elim found fun info => (info.compressedOffset, info.uncompressedOffset) := by
  induction front generalizing found with
  | nil =>
    cases back with
    | nil => rfl
    | cons info back =>
      rw [nil_append, Index.lastBefore, if_pos (after info mem_cons_self)]
      rfl
  | cons info front ih =>
    rw [cons_append, Index.lastBefore, if_neg (Int.not_lt.2 (before info mem_cons_self)),
      ih fun other member => before other (mem_cons_of_mem _ member), getLast?_cons]
    cases front.getLast? <;> rfl

theorem find_last {front back : List IndexInfo} {latest : IndexInfo} (natural : 0 ≤ offset)
    (reached : offset ≤ index.totalUncompressed)
    (entries : index.info = (front ++ [latest]) ++ back)
    (before : ∀ info ∈ front ++ [latest], info.uncompressedOffset ≤ offset)
    (after : ∀ info ∈ back, offset < info.uncompressedOffset) :
    index.find offset = .ok (latest.compressedOffset, latest.uncompressedOffset) := by
  obtain ⟨first, rest, isFirst⟩ : ∃ first rest, index.info = first :: rest := by
    cases isInfo : index.info with
    | nil => simp [isInfo] at entries
    | cons first rest => exact ⟨first, rest, rfl⟩
  have place : BinarySearch.insertionPoint (fun info : IndexInfo => offset < info.uncompressedOffset)
      index.info = (front ++ [latest]).length := by
    rw [entries]
    exact BinarySearch.insertion_point_append
      (fun info member => decide_eq_false (Int.not_lt.2 (before info member)))
      (fun info member => decide_eq_true (after info member))
  rw [find_reached natural reached isFirst]
  split
  · rw [place, if_neg (by simp), entries]
    simp [List.getD]
  · rw [entries, last_before_append before after, getLast?_concat]
    rfl

theorem find_before (natural : 0 ≤ offset)
    (reached : offset ≤ index.totalUncompressed) (entries : index.info = first :: rest)
    (after : ∀ info ∈ index.info, offset < info.uncompressedOffset) :
    index.find offset =
      if 200 < index.info.length then .ok (first.compressedOffset, first.uncompressedOffset)
      else .ok (0, 0) := by
  have place : BinarySearch.insertionPoint (fun info : IndexInfo => offset < info.uncompressedOffset)
      index.info = 0 :=
    @BinarySearch.insertion_point_append IndexInfo _ [] index.info (fun _ member => (nomatch member))
      (fun info member => decide_eq_true (after info member))
  rw [find_reached natural reached entries]
  split
  · rw [place, if_pos rfl]
  · have scanned := @last_before_append offset [] index.info (0, 0) (fun _ member => (nomatch member)) after
    rw [nil_append] at scanned
    rw [scanned]
    rfl

theorem last_before_mem {found : Int × Int} (info : List IndexInfo) :
    Index.lastBefore offset found info = found ∨
      ∃ entry ∈ info, Index.lastBefore offset found info =
        (entry.compressedOffset, entry.uncompressedOffset) := by
  induction info generalizing found with
  | nil => exact .inl rfl
  | cons entry info ih =>
    rw [Index.lastBefore]
    split
    · exact .inl rfl
    · rcases @ih (entry.compressedOffset, entry.uncompressedOffset) with same | ⟨later, member, same⟩
      · exact .inr ⟨entry, mem_cons_self, same⟩
      · exact .inr ⟨later, mem_cons_of_mem _ member, same⟩

theorem get_d_mem {info : List IndexInfo} (isFirst : first ∈ info) (n : Nat) :
    info.getD n first ∈ info := by
  rw [getD_eq_getElem?_getD]
  cases isEntry : info[n]? with
  | none => exact isFirst
  | some entry => exact mem_of_getElem? isEntry

theorem find_cases {found : Int × Int} (isFound : index.find offset = .ok found) :
    found = (0, 0) ∨
      ∃ entry ∈ index.info, found = (entry.compressedOffset, entry.uncompressedOffset) := by
  unfold Index.find at isFound
  split at isFound
  · cases isFound
  · extract_lets place at isFound
    split at isFound
    · cases isFound
    · split at isFound
      · cases isFound
      · split at isFound
        · cases isFound
        · rename_i first rest isInfo
          have isFirst : first ∈ index.info := by simp [isInfo]
          split at isFound
          · dsimp only at isFound
            split at isFound
            · cases isFound
              exact .inr ⟨first, isFirst, rfl⟩
            · cases isFound
              exact .inr ⟨_, get_d_mem isFirst _, rfl⟩
          · cases isFound
            exact last_before_mem _

end Search

/-- An index with entries that `CompressReader` recorded sends every offset to where one of its blocks
ends, or to the start. -/
theorem found_at_block_boundary {counted : IndexedBlocks} {loaded : Index} {offset : Int}
    {found : Int × Int} (added : IndexedBlocks.addBlocks blocks .new = .ok counted)
    (kept : loaded.info.Sublist counted.index.info) (isFound : loaded.find offset = .ok found) :
    ∃ front back, blocks = front ++ back ∧ found = ((storedSize front : Int), (plaintextSize front : Int)) := by
  rcases find_cases isFound with rfl | ⟨entry, member, rfl⟩
  · exact ⟨[], blocks, rfl, rfl⟩
  · have recorded := (indexed_blocks_entries added).subset (kept.subset member)
    obtain ⟨front, back, isBlocks, _, _, rfl⟩ := block_ends_mem recorded
    exact ⟨front, back, isBlocks, by rw [Nat.zero_add, Nat.zero_add]⟩

def wideBlock : CompressedBlock := ⟨100, 1048576, by decide, by decide⟩

theorem second_block_found :
    ∃ front back, [wideBlock, wideBlock] = front ++ back ∧
      ((100 : Int), (1048576 : Int)) = ((storedSize front : Int), (plaintextSize front : Int)) :=
  @found_at_block_boundary [wideBlock, wideBlock]
    ⟨200, 2097152, ⟨2097152, 200, [⟨100, 1048576⟩, ⟨200, 2097152⟩], 0⟩⟩
    ⟨2097152, 200, [⟨100, 1048576⟩, ⟨200, 2097152⟩], 0⟩ 1500000 (100, 1048576) rfl (.refl _) rfl

end Rustfs.Rio
