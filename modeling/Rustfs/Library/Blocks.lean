import Mathlib.Algebra.Order.Floor.Div
import Mathlib.Data.List.Basic
import Mathlib.Algebra.BigOperators.Group.List.Basic

/-!
# Cutting a list into blocks

A list is cut into consecutive blocks of one size, the last of which may be
shorter. The lemmas say how the blocks put together give the list back, how a
quantity summed over the blocks splits into the full blocks and the last one,
and when two lists of blocks have the same elements.
-/

namespace Rustfs.Library.Blocks

open List

variable {α : Type} {size : Nat}

def block (size : Nat) (data : List α) (index : Nat) : List α :=
  (data.drop (index * size)).take size

def blockCount (size total : Nat) : Nat := total ⌈/⌉ size

def blockLength (size total index : Nat) : Nat := min size (total - index * size)

/-- The whole pieces of `size` elements; what is left over is dropped. -/
def chunksExact (size : Nat) (data : List α) : List (List α) :=
  (List.range (data.length / size)).map (block size data)

@[simp] theorem length_block (size : Nat) (data : List α) (index : Nat) :
    (block size data index).length = blockLength size data.length index := by
  simp [block, blockLength]

theorem length_of_mem_chunks_exact {data piece : List α}
    (member : piece ∈ chunksExact size data) : piece.length = size := by
  obtain ⟨index, listed, rfl⟩ := mem_map.1 member
  have inside : (index + 1) * size ≤ data.length :=
    le_trans (Nat.mul_le_mul_right size (mem_range.1 listed)) (Nat.div_mul_le_self _ _)
  rw [Nat.succ_mul] at inside
  rw [length_block, blockLength]
  omega

theorem flatten_first_blocks (size : Nat) (data : List α) (count : Nat) :
    ((List.range count).map (block size data)).flatten = data.take (count * size) := by
  induction count with
  | zero => simp
  | succ count induction =>
    rw [range_succ, map_append, flatten_append, induction]
    rw [Nat.succ_mul, take_add]
    simp [block]

theorem length_le_count_mul (positive : 0 < size) (total : Nat) :
    total ≤ blockCount size total * size := by
  have covered : total ≤ size * blockCount size total := (ceilDiv_le_iff_le_mul positive).1 le_rfl
  rwa [Nat.mul_comm] at covered

theorem flatten_blocks (positive : 0 < size) (data : List α) :
    ((List.range (blockCount size data.length)).map (block size data)).flatten = data := by
  rw [flatten_first_blocks]
  exact take_of_length_le (length_le_count_mul positive data.length)

def blocks (size : Nat) (data : List α) : List (List α) :=
  (List.range (blockCount size data.length)).map (block size data)

@[simp] theorem blocks_nil (size : Nat) : blocks size ([] : List α) = [] := by
  simp [blocks, blockCount]

theorem block_count_drop {size total : Nat} (positive : 0 < size) (filled : 0 < total) :
    blockCount size total = blockCount size (total - size) + 1 := by
  have shifted : ∀ count, blockCount size total ≤ count + 1 ↔ blockCount size (total - size) ≤ count := by
    intro count
    rw [blockCount, blockCount, ceilDiv_le_iff_le_mul positive, ceilDiv_le_iff_le_mul positive,
      Nat.mul_succ]
    omega
  have low := (shifted (blockCount size (total - size))).2 le_rfl
  cases count : blockCount size total with
  | zero =>
    have vacant : blockCount size total ≤ 0 := count.le
    rw [blockCount, ceilDiv_le_iff_le_mul positive] at vacant
    omega
  | succ fewer =>
    have high := (shifted fewer).1 count.le
    omega

theorem blocks_cons (positive : 0 < size) {data : List α} (filled : data ≠ []) :
    blocks size data = data.take size :: blocks size (data.drop size) := by
  rw [blocks, blocks, length_drop,
    block_count_drop positive (length_pos_iff.2 filled), range_succ_eq_map, map_cons,
    map_map]
  congr 1
  · rw [block, Nat.zero_mul, drop_zero]
  · apply map_congr_left
    intro index _
    rw [Function.comp_apply, block, block, drop_drop, Nat.succ_mul, Nat.add_comm]

theorem lt_block_count_iff (positive : 0 < size) (total index : Nat) :
    index < blockCount size total ↔ index * size < total := by
  rw [← not_le, ← not_le]
  apply not_congr
  rw [blockCount, ceilDiv_le_iff_le_mul positive, Nat.mul_comm]

theorem block_length_full {size total index : Nat} (inside : (index + 1) * size ≤ total) :
    blockLength size total index = size := by
  rw [Nat.succ_mul] at inside
  rw [blockLength]
  omega

theorem block_length_last (positive : 0 < size) (total : Nat) :
    blockLength size total (total / size) = total % size := by
  have split := Nat.div_add_mod total size
  have short := Nat.mod_lt total positive
  rw [Nat.mul_comm] at split
  rw [blockLength]
  omega

theorem block_count_eq (positive : 0 < size) (total : Nat) :
    blockCount size total = if total % size = 0 then total / size else total / size + 1 := by
  have split := Nat.div_add_mod total size
  have short := Nat.mod_lt total positive
  split
  · apply le_antisymm
    · rw [blockCount, ceilDiv_le_iff_le_mul positive]
      omega
    · apply Nat.div_le_of_le_mul
      rw [Nat.mul_comm]
      exact length_le_count_mul positive total
  · apply le_antisymm
    · rw [blockCount, ceilDiv_le_iff_le_mul positive, Nat.mul_add, Nat.mul_one]
      omega
    · apply Nat.succ_le_of_lt
      rw [lt_block_count_iff positive, Nat.mul_comm]
      omega

theorem sum_full_blocks (measure : Nat → Nat) (size total count : Nat)
    (inside : count * size ≤ total) :
    ((List.range count).map fun index => measure (blockLength size total index)).sum =
      count * measure size := by
  induction count with
  | zero => simp
  | succ count induction =>
    have fewer : count * size ≤ total := le_trans (Nat.mul_le_mul_right size (Nat.le_succ count)) inside
    rw [range_succ, map_append, sum_append, induction fewer]
    rw [map_singleton, sum_singleton, block_length_full inside, Nat.succ_mul]

theorem sum_blocks (positive : 0 < size) (measure : Nat → Nat) (zero : measure 0 = 0)
    (total : Nat) :
    ((List.range (blockCount size total)).map fun index =>
      measure (blockLength size total index)).sum =
      total / size * measure size + measure (total % size) := by
  have inside : total / size * size ≤ total := Nat.div_mul_le_self total size
  rw [block_count_eq positive]
  split
  · rename_i even
    rw [sum_full_blocks measure size total _ inside, even, zero, Nat.add_zero]
  · rw [range_succ, map_append, sum_append,
      sum_full_blocks measure size total _ inside, map_singleton, sum_singleton,
      block_length_last positive]

section Padding

variable (filler : α) (pad : Nat → Nat)

def padded (piece : List α) : List α := piece ++ List.replicate (pad piece.length) filler

def padAll (pieces : List (List α)) : List α := (pieces.map (padded filler pad)).flatten

@[simp] theorem pad_all_nil : padAll filler pad [] = [] := rfl

theorem pad_all_cons_append (piece : List α) (rest : List (List α)) :
    padAll filler pad (piece :: rest) = padded filler pad piece ++ padAll filler pad rest := rfl

@[simp] theorem pad_all_cons (piece : List α) (rest : List (List α)) :
    padAll filler pad (piece :: rest) =
      piece ++ (List.replicate (pad piece.length) filler ++ padAll filler pad rest) := by
  rw [pad_all_cons_append, padded, append_assoc]

theorem length_flatten_le_pad_all (pieces : List (List α)) :
    pieces.flatten.length ≤ (padAll filler pad pieces).length := by
  induction pieces with
  | nil => simp
  | cons piece rest induction =>
    rw [pad_all_cons, flatten_cons, length_append, length_append, length_append]
    omega

theorem take_pad_all_of_last (pieces : List (List α))
    (inner : ∀ piece ∈ pieces.dropLast, pad piece.length = 0) :
    (padAll filler pad pieces).take pieces.flatten.length = pieces.flatten := by
  induction pieces with
  | nil => simp
  | cons piece rest induction =>
    cases rest with
    | nil => simp
    | cons next rest =>
      have vacant : pad piece.length = 0 := inner piece (by simp)
      have tail := induction fun other member => inner other (by
        exact mem_cons_of_mem _ member)
      rw [pad_all_cons, vacant, replicate_zero, nil_append, flatten_cons,
        length_append, take_length_add_append, tail]

theorem filler_front_of_pad_all (pieces : List (List α)) (count : Nat)
    (front : ∀ item ∈ pieces.flatten.take count, item = filler) :
    ∀ item ∈ (padAll filler pad pieces).take count, item = filler := by
  induction pieces generalizing count with
  | nil => simp
  | cons piece rest induction =>
    intro item member
    rw [flatten_cons, take_append] at front
    rw [pad_all_cons, take_append, take_append] at member
    rcases mem_append.1 member with inPiece | behind
    · exact front item (mem_append_left _ inPiece)
    · rcases mem_append.1 behind with inPad | inRest
      · exact eq_of_mem_replicate (mem_of_mem_take inPad)
      · apply induction (count - piece.length)
          fun other inFlat => front other (mem_append_right _ inFlat)
        exact (take_subset_take_left _ (Nat.sub_le _ _)) inRest

theorem filler_of_shifted {gap : Nat} (positive : 0 < gap) (pieces : List (List α))
    (shifted : (List.replicate gap filler ++ padAll filler pad pieces).take pieces.flatten.length =
      pieces.flatten) : ∀ item ∈ pieces.flatten, item = filler := by
  have fronts : ∀ count, ∀ item ∈ pieces.flatten.take count, item = filler := by
    intro count
    induction count with
    | zero => simp
    | succ count induction =>
      intro item member
      rw [← shifted, take_take, take_append] at member
      rcases mem_append.1 member with inGap | inRest
      · exact eq_of_mem_replicate (mem_of_mem_take inGap)
      · apply filler_front_of_pad_all filler pad pieces count induction
        rw [length_replicate] at inRest
        exact (take_subset_take_left _ (by omega)) inRest
  intro item member
  exact fronts pieces.flatten.length item (by rw [take_length]; exact member)

theorem take_of_all_filler {items : List α} {count : Nat} (enough : count ≤ items.length)
    (same : ∀ item ∈ items, item = filler) : items.take count = List.replicate count filler := by
  rw [eq_replicate_iff]
  exact ⟨length_take_of_le enough, fun item member => same item (mem_of_mem_take member)⟩

/-- With padding behind the first piece, what follows comes out as it went in
exactly when it is all filler. -/
theorem take_pad_all_cons_iff (first : List α) (rest : List (List α))
    (positive : 0 < pad first.length) :
    (padAll filler pad (first :: rest)).take (first :: rest).flatten.length =
        (first :: rest).flatten ↔
      ∀ item ∈ rest.flatten, item = filler := by
  rw [pad_all_cons, flatten_cons, length_append, take_length_add_append, append_cancel_left_eq]
  constructor
  · intro shifted
    exact filler_of_shifted filler pad positive rest shifted
  · intro same
    have longer := length_flatten_le_pad_all filler pad rest
    rw [take_of_all_filler filler (by rw [length_append]; omega)]
    · rw [eq_comm, eq_replicate_iff]
      exact ⟨rfl, same⟩
    · intro item member
      rcases mem_append.1 member with inGap | inRest
      · exact eq_of_mem_replicate inGap
      · apply filler_front_of_pad_all filler pad rest (padAll filler pad rest).length
          (fun other inFlat => same other (mem_of_mem_take inFlat))
        rw [take_length]
        exact inRest

end Padding

end Rustfs.Library.Blocks
