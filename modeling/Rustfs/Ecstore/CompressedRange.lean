import Rustfs.Rio.CompressIndex
import Rustfs.Filemeta.FileInfo

/-!
# Where a range of a compressed object starts

`get_compressed_offsets` of `object_api/readers.rs` looks for the part that holds an offset and asks
the index of the part for a block to start with. The start it gives is right if and only if the
offset is not before the first entry of an index that is searched by halving. The sums are exact:
the `i64` of the source holds any object below `2 ^ 63` bytes. The `rio-v2` feature is off by
default and left out.
-/

namespace Rustfs.Ecstore

open List Option Rio
open Filemeta (ObjectPartInfo)
open Library.ByteReader (Bytes)

def partPlaintextSize (part : ObjectPartInfo) : Int :=
  if 0 < part.actualSize.toInt then part.actualSize.toInt else part.size.toNat

def decodeCompressionIndexBytes (bytes : Bytes) : Option Index :=
  match Index.load bytes with
  | .ok (decoded, _) => some decoded
  | .error _ => none

def decodeCompressionIndex (index : Option Bytes) : Option Index :=
  index.bind decodeCompressionIndexBytes

structure PartStart where
  compressedOffset : Int
  skipLength : Int
  firstPartIdx : Nat

def findPart (offset : Int) : (cumulative compressedOffset : Int) → Nat → List ObjectPartInfo → PartStart
  | _, compressedOffset, _, [] => ⟨compressedOffset, 0, 0⟩
  | cumulative, compressedOffset, i, part :: rest =>
    let cumulative := cumulative + partPlaintextSize part
    if cumulative ≤ offset then findPart offset cumulative (compressedOffset + part.size.toNat) (i + 1) rest
    else ⟨compressedOffset, cumulative - partPlaintextSize part, i⟩

def indexedStart (parts : List ObjectPartInfo) (firstPartIdx : Nat) (partSkip : Int) :
    Option (Int × Int) :=
  if 0 < partSkip then do
    let part ← parts[firstPartIdx]?
    let index ← decodeCompressionIndex part.index
    let (compOff, uncompOff) ← (index.find partSkip).toOption
    if 0 < compOff then some (compOff, uncompOff) else none
  else none

/-- With the offset into the stream, the plaintext to skip, the part, and for objects that are not
encrypted neither bytes to skip before decompression nor a sequence number. -/
def getCompressedOffsets (parts : List ObjectPartInfo) (offset : Int) : Int × Int × Nat × Int × Nat :=
  let start := findPart offset 0 0 0 parts
  let partSkip := offset - start.skipLength
  match indexedStart parts start.firstPartIdx partSkip with
  | some (compOff, uncompOff) =>
    (start.compressedOffset + compOff, partSkip - uncompOff, start.firstPartIdx, 0, 0)
  | none => (start.compressedOffset, partSkip, start.firstPartIdx, 0, 0)

/-- The record of a part that consists of the blocks: its index, if one can be decoded, holds ends
of blocks in their order. -/
structure Records (part : ObjectPartInfo) (blocks : List CompressedBlock) : Prop where
  size : part.size.toNat = storedSize blocks
  actualSize : part.actualSize.toInt = plaintextSize blocks
  index : ∀ index, decodeCompressionIndex part.index = some index →
    index.info.Sublist (blockEnds 0 0 blocks)

def plaintextBefore (parts : List ObjectPartInfo) : Int := (parts.map partPlaintextSize).sum

def storedBefore (parts : List ObjectPartInfo) : Int :=
  (parts.map fun part => (part.size.toNat : Int)).sum

/-- The read starts at the end of a block, or at the start, of the part that is given, and the
plaintext to skip leads from there to the offset. -/
def RightStart (contents : List (List CompressedBlock)) (offset : Int)
    (result : Int × Int × Nat × Int × Nat) : Prop :=
  ∃ front back, contents[result.2.2.1]? = some (front ++ back) ∧
    result.1 = storedSize (contents.take result.2.2.1).flatten + storedSize front ∧
    0 ≤ result.2.1 ∧
    plaintextSize (contents.take result.2.2.1).flatten + plaintextSize front + result.2.1 = offset

variable {blocks : List CompressedBlock} {part : ObjectPartInfo} {parts : List ObjectPartInfo}
  {contents : List (List CompressedBlock)} {offset : Int} {place : Nat} {partSkip : Int}

theorem records_plaintext
    (records : Records part blocks) : partPlaintextSize part = plaintextSize blocks := by
  unfold partPlaintextSize
  rw [records.actualSize, records.size]
  split
  · rfl
  · cases blocks with
    | nil => rfl
    | cons block blocks =>
      have := block.plaintextPos
      rw [plaintext_size_cons] at *
      omega

theorem records_before (records : List.Forall₂ Records parts contents) :
    plaintextBefore parts = plaintextSize contents.flatten ∧
      storedBefore parts = storedSize contents.flatten := by
  induction records with
  | nil => exact ⟨rfl, rfl⟩
  | cons first _ ih =>
    unfold plaintextBefore storedBefore at *
    rw [map_cons, sum_cons, map_cons, sum_cons, flatten_cons,
      plaintext_size_append, stored_size_append, records_plaintext first, first.size, ih.1, ih.2]
    exact ⟨by omega, by omega⟩

structure Holds (parts : List ObjectPartInfo) (offset : Int) (front : List ObjectPartInfo)
    (part : ObjectPartInfo) (back : List ObjectPartInfo) : Prop where
  isParts : parts = front ++ part :: back
  reached : plaintextBefore front ≤ offset
  inside : offset < plaintextBefore front + partPlaintextSize part

theorem find_part_holds {parts : List ObjectPartInfo} {offset cumulative compressedOffset : Int} {i : Nat}
    (reached : cumulative ≤ offset) (inside : offset < cumulative + plaintextBefore parts) :
    ∃ front part back, Holds parts (offset - cumulative) front part back ∧
      findPart offset cumulative compressedOffset i parts =
        ⟨compressedOffset + storedBefore front, cumulative + plaintextBefore front,
          i + front.length⟩ := by
  induction parts generalizing cumulative compressedOffset i with
  | nil =>
    unfold plaintextBefore at inside
    rw [map_nil, sum_nil] at inside
    omega
  | cons part parts ih =>
    rw [plaintextBefore, map_cons, sum_cons, ← plaintextBefore] at inside
    rw [findPart]
    split
    · rename_i later
      obtain ⟨front, found, back, holds, isStart⟩ := @ih (cumulative + partPlaintextSize part)
        (compressedOffset + part.size.toNat) (i + 1) later (by omega)
      refine ⟨part :: front, found, back, ⟨?_, ?_, ?_⟩, ?_⟩
      · rw [holds.isParts, cons_append]
      · have := holds.reached
        rw [plaintextBefore, map_cons, sum_cons, ← plaintextBefore]
        omega
      · have := holds.inside
        rw [plaintextBefore, map_cons, sum_cons, ← plaintextBefore]
        omega
      · rw [isStart]
        simp only [plaintextBefore, storedBefore, map_cons, sum_cons, length_cons,
          PartStart.mk.injEq]
        omega
    · refine ⟨[], part, parts, ⟨rfl, ?_, ?_⟩, ?_⟩
      · simp only [plaintextBefore, map_nil, sum_nil]
        omega
      · simp only [plaintextBefore, map_nil, sum_nil]
        omega
      · simp only [plaintextBefore, storedBefore, map_nil, sum_nil, length_nil, PartStart.mk.injEq]
        omega

theorem plaintext_before_nonneg (parts : List ObjectPartInfo) : 0 ≤ plaintextBefore parts := by
  induction parts with
  | nil => exact Int.le_refl 0
  | cons part parts ih =>
    have own : 0 ≤ partPlaintextSize part := by
      unfold partPlaintextSize
      split
      · omega
      · exact Int.natCast_nonneg _
    rw [plaintextBefore, map_cons, sum_cons, ← plaintextBefore]
    omega

theorem holds_unique {parts front front' back back' : List ObjectPartInfo}
    {part part' : ObjectPartInfo} (holds : Holds parts offset front part back)
    (also : Holds parts offset front' part' back') : front = front' ∧ part = part' := by
  have later {front front' back back' : List ObjectPartInfo} {part part' : ObjectPartInfo}
      (holds : Holds parts offset front part back) (also : Holds parts offset front' part' back')
      (middle : List ObjectPartInfo) (longer : front' = front ++ middle)
      (rest : part :: back = middle ++ part' :: back') : front = front' ∧ part = part' := by
    cases middle with
    | nil =>
      rw [append_nil] at longer
      exact ⟨longer.symm, (List.cons.inj rest).1⟩
    | cons first middle =>
      obtain ⟨rfl, isBack⟩ := List.cons.inj rest
      have nonneg := plaintext_before_nonneg middle
      have reached := also.reached
      have inside := holds.inside
      rw [longer] at reached
      simp only [plaintextBefore, map_append, map_cons, sum_append,
        sum_cons] at reached inside nonneg
      omega
  rcases append_eq_append_iff.1 (holds.isParts.symm.trans also.isParts) with
    ⟨middle, longer, rest⟩ | ⟨middle, longer, rest⟩
  · exact later holds also middle longer rest
  · obtain ⟨sameFront, samePart⟩ := later also holds middle longer rest
    exact ⟨sameFront.symm, samePart.symm⟩

/-- The offset is before the first entry of an index that is searched by halving. -/
def BeforeIndex (part : ObjectPartInfo) (partSkip : Int) : Prop :=
  ∃ index first, decodeCompressionIndex part.index = some index ∧ 200 < index.info.length ∧
    index.info.head? = some first ∧ 0 < partSkip ∧ partSkip < first.uncompressedOffset ∧
    partSkip ≤ index.totalUncompressed

theorem split_entries {info : List IndexInfo} (offset : Int)
    (increasing : info.Pairwise fun earlier later =>
      earlier.uncompressedOffset < later.uncompressedOffset) :
    ∃ front back, info = front ++ back ∧ (∀ entry ∈ front, entry.uncompressedOffset ≤ offset) ∧
      ∀ entry ∈ back, offset < entry.uncompressedOffset := by
  induction info with
  | nil => exact ⟨[], [], rfl, fun _ member => (nomatch member), fun _ member => (nomatch member)⟩
  | cons entry info ih =>
    obtain ⟨first, rest⟩ := pairwise_cons.1 increasing
    by_cases past : offset < entry.uncompressedOffset
    · refine ⟨[], entry :: info, rfl, fun _ member => (nomatch member), fun other member => ?_⟩
      rcases mem_cons.1 member with rfl | later
      · exact past
      · exact past.trans (first other later)
    · obtain ⟨front, back, rfl, before, after⟩ := ih rest
      refine ⟨entry :: front, back, rfl, fun other member => ?_, after⟩
      rcases mem_cons.1 member with rfl | inFront
      · exact Int.not_lt.1 past
      · exact before other inFront

theorem indexed_start_cases (isPart : parts[place]? = some part)
    (records : Records part blocks) (searched : ¬BeforeIndex part partSkip) (natural : 0 ≤ partSkip) :
    indexedStart parts place partSkip = none ∨
      ∃ front back, blocks = front ++ back ∧ plaintextSize front ≤ partSkip ∧
        indexedStart parts place partSkip =
          some ((storedSize front : Int), (plaintextSize front : Int)) := by
  unfold indexedStart
  rw [isPart]
  by_cases positive : 0 < partSkip
  · rw [if_pos positive, bind_eq_bind, bind_some]
    cases decoded : decodeCompressionIndex part.index with
    | none => exact .inl rfl
    | some index =>
      have sublist := records.index index decoded
      rw [bind_eq_bind, bind_some]
      by_cases reached : partSkip ≤ index.totalUncompressed
      · obtain ⟨front, back, isInfo, before, after⟩ := split_entries partSkip
          ((block_ends_increasing blocks 0 0).sublist sublist)
        rcases eq_nil_or_concat front with rfl | ⟨front, latest, rfl⟩
        · cases entries : index.info with
          | nil =>
            obtain ⟨error, failed⟩ := find_unreached natural (.inr entries)
            rw [failed]
            exact .inl rfl
          | cons first rest =>
            have pastAll : ∀ info ∈ index.info, partSkip < info.uncompressedOffset := by
              rwa [isInfo]
            have few : ¬200 < index.info.length := fun many => searched
              ⟨index, first, decoded, many, by rw [entries]; rfl, positive,
                pastAll first (by rw [entries]; exact mem_cons_self), reached⟩
            rw [find_before natural reached entries pastAll, if_neg few]
            exact .inl rfl
        · rw [concat_eq_append] at isInfo before
          rw [find_last natural reached isInfo before after]
          obtain ⟨used, rest, rfl, positiveStored, _, rfl⟩ := block_ends_mem
            (sublist.subset (show latest ∈ index.info by rw [isInfo]; simp))
          have notPast := before _ (mem_append_right _ (mem_singleton_self _))
          refine .inr ⟨used, rest, rfl, ?_, ?_⟩
          · simpa using notPast
          · simp [Except.toOption, positiveStored]
      · obtain ⟨error, failed⟩ := find_unreached natural (.inl (Int.not_le.1 reached))
        rw [failed]
        exact .inl rfl
  · rw [if_neg positive]
    exact .inl rfl

theorem indexed_start_before (isPart : parts[place]? = some part)
    (records : Records part blocks) (before : BeforeIndex part partSkip) :
    ∃ compOff uncompOff, indexedStart parts place partSkip = some (compOff, uncompOff) ∧
      partSkip < uncompOff := by
  obtain ⟨index, first, decoded, many, isFirst, positive, past, reached⟩ := before
  have sublist := records.index index decoded
  obtain ⟨rest, entries⟩ := head?_eq_some_iff.1 isFirst
  have increasing := (block_ends_increasing blocks 0 0).sublist sublist
  have pastAll : ∀ info ∈ index.info, partSkip < info.uncompressedOffset := by
    rw [entries] at increasing ⊢
    intro info member
    rcases mem_cons.1 member with rfl | later
    · exact past
    · exact past.trans ((pairwise_cons.1 increasing).1 info later)
  obtain ⟨used, _, _, positiveStored, _, isEnd⟩ := block_ends_mem
    (sublist.subset (show first ∈ index.info by rw [entries]; exact mem_cons_self))
  refine ⟨first.compressedOffset, first.uncompressedOffset, ?_, past⟩
  unfold indexedStart
  rw [isPart, if_pos positive, bind_eq_bind, bind_some, decoded, bind_eq_bind,
    bind_some, find_before positive.le reached entries pastAll, if_pos many]
  have stored : 0 < first.compressedOffset := by
    rw [isEnd]
    dsimp only
    omega
  simp [Except.toOption, stored]

structure Located (parts : List ObjectPartInfo) (contents : List (List CompressedBlock)) (offset : Int)
    (front : List ObjectPartInfo) (part : ObjectPartInfo) (back : List ObjectPartInfo)
    (blocks : List CompressedBlock) : Prop where
  holds : Holds parts offset front part back
  records : Records part blocks
  isPart : parts[front.length]? = some part
  isBlocks : contents[front.length]? = some blocks
  plaintext : plaintextBefore front = plaintextSize (contents.take front.length).flatten
  stored : storedBefore front = storedSize (contents.take front.length).flatten
  start : findPart offset 0 0 0 parts = ⟨storedBefore front, plaintextBefore front, front.length⟩

theorem part_located (records : List.Forall₂ Records parts contents) (natural : 0 ≤ offset)
    (inside : offset < plaintextSize contents.flatten) :
    ∃ front part back blocks, Located parts contents offset front part back blocks := by
  have total := (records_before records).1
  obtain ⟨front, part, back, holds, isStart⟩ := @find_part_holds parts offset 0 0 0 natural
    (by omega)
  rw [Int.sub_zero] at holds
  simp only [Int.zero_add, Nat.zero_add] at isStart
  have before := forall₂_take front.length records
  have behind := forall₂_drop front.length records
  rw [holds.isParts, take_left] at before
  rw [holds.isParts, drop_left] at behind
  obtain ⟨blocks, others, own, _, isRest⟩ := forall₂_cons_left_iff.1 behind
  obtain ⟨plaintext, stored⟩ := records_before before
  refine ⟨front, part, back, blocks, holds, own, ?_, ?_, plaintext, stored, isStart⟩
  · rw [holds.isParts, getElem?_append_right (Nat.le_refl _), Nat.sub_self]
    rfl
  · rw [← head?_drop, isRest]
    rfl

section Start

variable {parts : List ObjectPartInfo} {contents : List (List CompressedBlock)} {offset : Int}
  {front : List ObjectPartInfo} {part : ObjectPartInfo} {back : List ObjectPartInfo}
  {blocks : List CompressedBlock}

theorem start_right (located : Located parts contents offset front part back blocks)
    (searched : ¬BeforeIndex part (offset - plaintextBefore front)) :
    RightStart contents offset (getCompressedOffsets parts offset) := by
  have reached := located.holds.reached
  unfold getCompressedOffsets
  rw [located.start]
  dsimp only
  rcases indexed_start_cases located.isPart located.records searched (by omega) with
    noEntry | ⟨used, others, rfl, covered, isEntry⟩
  · rw [noEntry]
    have skips : 0 ≤ offset - plaintextBefore front := by omega
    refine ⟨[], blocks, located.isBlocks, ?_, skips, ?_⟩
    · rw [located.stored]
      simp [storedSize]
    · rw [located.plaintext]
      simp [plaintextSize]
  · rw [isEntry]
    have skips : 0 ≤ offset - plaintextBefore front - plaintextSize used := by omega
    refine ⟨used, others, located.isBlocks, ?_, skips, ?_⟩
    · rw [located.stored]
    · rw [located.plaintext]
      dsimp only
      omega

theorem start_wrong (located : Located parts contents offset front part back blocks)
    (early : BeforeIndex part (offset - plaintextBefore front)) :
    ¬RightStart contents offset (getCompressedOffsets parts offset) := by
  obtain ⟨compOff, uncompOff, isEntry, past⟩ :=
    indexed_start_before located.isPart located.records early
  unfold getCompressedOffsets
  rw [located.start]
  dsimp only
  rw [isEntry]
  intro ⟨_, _, _, _, skips, _⟩
  dsimp only at skips
  omega

end Start

/-- Reads of a compressed range start right if and only if the offset is not before the first
entry of an index with more than 200 of them. Shorter indexes are scanned from the front and are
always right. -/
theorem compressed_start_right_iff
    (records : List.Forall₂ Records parts contents) (natural : 0 ≤ offset)
    (inside : offset < plaintextSize contents.flatten) :
    RightStart contents offset (getCompressedOffsets parts offset) ↔
      ¬∃ front part back, Holds parts offset front part back ∧
        BeforeIndex part (offset - plaintextBefore front) := by
  obtain ⟨front, part, back, blocks, located⟩ := part_located records natural inside
  constructor
  · intro right ⟨front', part', back', also, early⟩
    obtain ⟨rfl, rfl⟩ := holds_unique located.holds also
    exact start_wrong located early right
  · intro searched
    exact start_right located fun early => searched ⟨front, part, back, located.holds, early⟩

/-! Blocks of one size, in a part without and in one with an index. -/

def evenBlock : CompressedBlock := ⟨10, 1048576, Nat.succ_pos 9, Nat.succ_pos 1048575⟩

theorem even_sizes (count : Nat) : storedSize (List.replicate count evenBlock) = count * 10 ∧
    plaintextSize (List.replicate count evenBlock) = count * 1048576 := by
  simp [storedSize, plaintextSize, evenBlock]

def evenIndex (count : Nat) : Index :=
  ⟨(count * 1048576 : Nat), (count * 10 : Nat), blockEnds 0 0 (List.replicate count evenBlock), 0⟩

def plainPart : ObjectPartInfo := { ObjectPartInfo.default with size := 10, actualSize := 1048576 }

def shortPart : ObjectPartInfo :=
  { ObjectPartInfo.default with size := 20, actualSize := 2097152, index := (evenIndex 2).intoVec }

def longPart : ObjectPartInfo :=
  { ObjectPartInfo.default with
    size := 2010, actualSize := 210763776, index := (evenIndex 201).intoVec }

theorem short_index_decoded : decodeCompressionIndex shortPart.index = some (evenIndex 2) := by
  decide +kernel

theorem long_index_decoded : decodeCompressionIndex longPart.index = some (evenIndex 201) := by
  decide +kernel

theorem short_part_records : Records shortPart (List.replicate 2 evenBlock) where
  size := rfl
  actualSize := rfl
  index index decoded := by
    rw [short_index_decoded] at decoded
    cases decoded
    exact List.Sublist.refl _

theorem second_part_start :
    getCompressedOffsets [plainPart, shortPart] 2097159 = (20, 7, 1, 0, 0) ∧
      RightStart [[evenBlock], [evenBlock, evenBlock]] 2097159
        (getCompressedOffsets [plainPart, shortPart] 2097159) := by
  have plain : Records plainPart [evenBlock] :=
    ⟨rfl, rfl, fun index decoded => (nomatch decoded)⟩
  refine ⟨by decide, (compressed_start_right_iff (.cons plain (.cons short_part_records .nil))
    (by decide) (by decide)).2 ?_⟩
  intro ⟨front, part, back, holds, index, first, decoded, many, _⟩
  have member : part ∈ [plainPart, shortPart] := by
    rw [holds.isParts]
    exact mem_append_right _ mem_cons_self
  rcases mem_cons.1 member with rfl | member
  · cases decoded
  · rw [mem_singleton.1 member, short_index_decoded] at decoded
    cases decoded
    exact absurd many (by decide)

/-- The fifth byte of a part with 201 entries. -/
theorem early_offset_misplaced :
    List.Forall₂ Records [longPart] [List.replicate 201 evenBlock] ∧
      (5 : Int) < plaintextSize [List.replicate 201 evenBlock].flatten ∧
      ¬RightStart [List.replicate 201 evenBlock] 5 (getCompressedOffsets [longPart] 5) := by
  have records : Records longPart (List.replicate 201 evenBlock) := by
    refine ⟨by rw [(even_sizes 201).1]; rfl, by rw [(even_sizes 201).2]; rfl,
      fun index decoded => ?_⟩
    rw [long_index_decoded] at decoded
    cases decoded
    exact List.Sublist.refl _
  have table : List.Forall₂ Records [longPart] [List.replicate 201 evenBlock] := .cons records .nil
  have inside : (5 : Int) < plaintextSize [List.replicate 201 evenBlock].flatten := by
    rw [flatten_singleton, (even_sizes 201).2]
    decide
  refine ⟨table, inside, ?_⟩
  obtain ⟨front, part, back, blocks, located⟩ := part_located table (by decide) inside
  have alone := located.holds.isParts
  obtain ⟨rfl, rfl⟩ : front = [] ∧ part = longPart := by
    cases front with
    | nil => exact ⟨rfl, (List.cons.inj alone).1.symm⟩
    | cons first front => simp at alone
  have many : 200 < (evenIndex 201).info.length := by
    rw [evenIndex, block_ends_length, length_replicate]
    decide
  exact start_wrong located ⟨evenIndex 201, ⟨10, 1048576⟩, long_index_decoded, many, rfl, by decide,
    by decide, by decide⟩

end Rustfs.Ecstore
