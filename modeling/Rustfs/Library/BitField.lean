import Mathlib.Algebra.Order.Ring.Nat
import Mathlib.Data.Nat.Bitwise

/-!
# Counters packed into one machine word

A word holds several counters side by side. `field shift width` reads the one whose
bits start at `shift`. A word with a unit of the counter added or taken away differs
from the old word in that counter alone, as long as the counter neither overflows nor
goes below zero: `OnlyField` says so, and with it every counter of other bits is the
same.
-/

namespace Rustfs.Library.BitField

variable {size shift width : Nat} {word next : BitVec size}

def field (shift width : Nat) (word : BitVec size) : Nat := word.toNat / 2 ^ shift % 2 ^ width

theorem field_lt (shift width : Nat) (word : BitVec size) : field shift width word < 2 ^ width :=
  Nat.mod_lt _ (Nat.two_pow_pos width)

theorem field_zero (shift width : Nat) : field shift width (0 : BitVec size) = 0 := by
  simp [field]

structure OnlyField (shift width : Nat) (word next : BitVec size) : Prop where
  below : next.toNat % 2 ^ shift = word.toNat % 2 ^ shift
  above : next.toNat / 2 ^ shift / 2 ^ width = word.toNat / 2 ^ shift / 2 ^ width

theorem OnlyField.symm (only : OnlyField shift width word next) : OnlyField shift width next word :=
  ⟨only.below.symm, only.above.symm⟩

theorem OnlyField.lower {start count : Nat} (only : OnlyField shift width word next)
    (before : start + count ≤ shift) : field start count next = field start count word := by
  have inside (number : Nat) : number / 2 ^ start % 2 ^ count =
      number % 2 ^ shift / 2 ^ start % 2 ^ count := by
    obtain ⟨more, rfl⟩ := Nat.exists_eq_add_of_le before
    rw [Nat.add_assoc, Nat.pow_add, Nat.mod_mul_right_div_self, Nat.pow_add, Nat.mod_mul_right_mod]
  unfold field
  rw [inside, only.below, ← inside]

theorem OnlyField.higher {start count : Nat} (only : OnlyField shift width word next)
    (after : shift + width ≤ start) : field start count next = field start count word := by
  have inside (number : Nat) : number / 2 ^ start =
      number / 2 ^ shift / 2 ^ width / 2 ^ (start - (shift + width)) := by
    rw [Nat.div_div_eq_div_mul, Nat.div_div_eq_div_mul, ← Nat.pow_add, ← Nat.pow_add]
    congr 2
    omega
  unfold field
  rw [inside, only.above, ← inside]

theorem to_nat_and_mask (fits : shift + width ≤ size) (word : BitVec size) :
    (word &&& (BitVec.ofNat size (2 ^ width - 1) <<< shift)).toNat =
      field shift width word * 2 ^ shift := by
  have small : 2 ^ width - 1 < 2 ^ size :=
    Nat.lt_of_lt_of_le (Nat.sub_lt (Nat.two_pow_pos width) Nat.one_pos)
      (Nat.pow_le_pow_right Nat.two_pos (by omega))
  apply Nat.eq_of_testBit_eq
  intro place
  rw [BitVec.toNat_and, BitVec.toNat_shiftLeft, BitVec.toNat_ofNat, Nat.mod_eq_of_lt small,
    Nat.testBit_and, Nat.testBit_mod_two_pow, Nat.testBit_shiftLeft, Nat.testBit_two_pow_sub_one,
    ← Nat.shiftLeft_eq, Nat.testBit_shiftLeft, field, Nat.testBit_mod_two_pow,
    Nat.testBit_div_two_pow]
  by_cases reached : shift ≤ place
  · by_cases inside : place - shift < width
    · have within : place < size := by omega
      simp [reached, inside, within]
    · simp [inside]
  · simp [reached]

theorem and_mask_eq_zero (fits : shift + width ≤ size) (word : BitVec size) :
    word &&& (BitVec.ofNat size (2 ^ width - 1) <<< shift) = 0 ↔ field shift width word = 0 := by
  rw [← BitVec.toNat_inj, to_nat_and_mask fits]
  have positive := Nat.two_pow_pos shift
  constructor
  · intro masked
    rcases Nat.mul_eq_zero.1 masked with empty | impossible
    · exact empty
    · omega
  · intro empty
    rw [empty, Nat.zero_mul]
    rfl

theorem and_or_eq_zero (word left right : BitVec size) :
    word &&& (left ||| right) = 0 ↔ word &&& left = 0 ∧ word &&& right = 0 := by
  rw [BitVec.and_or_distrib_left]
  exact BitVec.or_eq_zero_iff

theorem to_nat_masked_shifted (fits : shift + width ≤ size) (word : BitVec size) :
    (((word &&& (BitVec.ofNat size (2 ^ width - 1) <<< shift)) >>> shift).setWidth width).toNat =
      field shift width word := by
  rw [BitVec.toNat_setWidth, BitVec.toNat_ushiftRight, to_nat_and_mask fits,
    Nat.shiftRight_eq_div_pow, Nat.mul_div_cancel _ (Nat.two_pow_pos shift),
    Nat.mod_eq_of_lt (field_lt shift width word)]

theorem to_nat_unit (inside : shift < size) : (BitVec.ofNat size 1 <<< shift).toNat = 2 ^ shift := by
  have large : 1 < 2 ^ size := Nat.one_lt_two_pow (by omega)
  rw [BitVec.toNat_shiftLeft, BitVec.toNat_ofNat, Nat.mod_eq_of_lt large, Nat.one_shiftLeft,
    Nat.mod_eq_of_lt (Nat.pow_lt_pow_right Nat.one_lt_two inside)]

theorem succ_in_field {number limit : Nat} (room : number % limit + 1 < limit) :
    (number + 1) % limit = number % limit + 1 ∧ (number + 1) / limit = number / limit := by
  have split := Nat.div_add_mod number limit
  have positive : 0 < limit := Nat.lt_of_le_of_lt (Nat.zero_le _) room
  have whole : number + 1 = number % limit + 1 + limit * (number / limit) := by omega
  constructor
  · rw [whole, Nat.add_mul_mod_self_left, Nat.mod_eq_of_lt room]
  · conv_lhs => rw [whole]
    rw [Nat.add_mul_div_left _ _ positive, Nat.div_eq_of_lt room, Nat.zero_add]

theorem lt_of_succ_mod {number limit : Nat} (positive : 0 < (number + 1) % limit)
    (nonzero : 0 < limit) : number % limit + 1 < limit := by
  apply Nat.lt_of_le_of_ne (Nat.mod_lt number nonzero)
  intro full
  rw [Nat.succ_eq_add_one] at full
  rw [← Nat.mod_add_mod, full, Nat.mod_self] at positive
  exact Nat.lt_irrefl 0 positive

theorem unit_apart (grown : next.toNat = word.toNat + 2 ^ shift)
    (room : field shift width word + 1 < 2 ^ width) :
    OnlyField shift width word next ∧ field shift width next = field shift width word + 1 := by
  have moved : next.toNat / 2 ^ shift = word.toNat / 2 ^ shift + 1 := by
    rw [grown, Nat.add_div_right _ (Nat.two_pow_pos shift)]
  obtain ⟨value, above⟩ := succ_in_field room
  refine ⟨⟨?_, ?_⟩, ?_⟩
  · rw [grown, Nat.add_mod_right]
  · rw [moved, above]
  · rw [field, moved, value, field]

theorem add_unit (fits : shift + width ≤ size) (inside : shift < size)
    (room : field shift width word + 1 < 2 ^ width) :
    OnlyField shift width word (word + BitVec.ofNat size 1 <<< shift) ∧
      field shift width (word + BitVec.ofNat size 1 <<< shift) = field shift width word + 1 := by
  have place : word.toNat / 2 ^ shift / 2 ^ width < 2 ^ (size - (shift + width)) := by
    rw [Nat.div_div_eq_div_mul, ← Nat.pow_add, Nat.div_lt_iff_lt_mul (Nat.two_pow_pos _),
      ← Nat.pow_add, Nat.sub_add_cancel fits]
    exact word.isLt
  have noCarry : word.toNat + 2 ^ shift < 2 ^ size := by
    have whole : 2 ^ (size - (shift + width)) * 2 ^ (shift + width) = 2 ^ size := by
      rw [← Nat.pow_add, Nat.sub_add_cancel fits]
    rw [← whole, ← Nat.div_lt_iff_lt_mul (Nat.two_pow_pos _), Nat.pow_add 2 shift,
      ← Nat.div_div_eq_div_mul, Nat.add_div_right _ (Nat.two_pow_pos shift),
      (succ_in_field room).2]
    exact place
  apply unit_apart _ room
  rw [BitVec.toNat_add, to_nat_unit inside, Nat.mod_eq_of_lt noCarry]

theorem sub_unit (inside : shift < size) (held : 0 < field shift width word) :
    OnlyField shift width word (word - BitVec.ofNat size 1 <<< shift) ∧
      field shift width word = field shift width (word - BitVec.ofNat size 1 <<< shift) + 1 := by
  have enough : 2 ^ shift ≤ word.toNat := by
    apply Nat.le_of_not_lt
    intro less
    rw [field, Nat.div_eq_of_lt less, Nat.zero_mod] at held
    exact Nat.lt_irrefl 0 held
  have back : word.toNat = (word - BitVec.ofNat size 1 <<< shift).toNat + 2 ^ shift := by
    rw [BitVec.toNat_sub_of_le, to_nat_unit inside, Nat.sub_add_cancel enough]
    rw [BitVec.le_def, to_nat_unit inside]
    exact enough
  have moved : word.toNat / 2 ^ shift = (word - BitVec.ofNat size 1 <<< shift).toNat / 2 ^ shift + 1 := by
    conv_lhs => rw [back]
    rw [Nat.add_div_right _ (Nat.two_pow_pos shift)]
  have room : field shift width (word - BitVec.ofNat size 1 <<< shift) + 1 < 2 ^ width := by
    have bound := field_lt shift width word
    unfold field at held bound ⊢
    rw [moved] at held bound
    exact lt_of_succ_mod held (Nat.two_pow_pos width)
  obtain ⟨only, value⟩ := unit_apart back room
  exact ⟨only.symm, value⟩

theorem unit_eq_mask (size shift : Nat) : BitVec.ofNat size 1 <<< shift = BitVec.ofNat size (2 ^ 1 - 1) <<< shift :=
  rfl

theorem or_unit (fits : shift + 1 ≤ size) (down : field shift 1 word = 0) :
    word ||| BitVec.ofNat size 1 <<< shift = word + BitVec.ofNat size 1 <<< shift := by
  symm
  apply BitVec.add_eq_or_of_and_eq_zero
  exact (and_mask_eq_zero fits word).2 down

theorem and_not_eq_sub {flag : BitVec size} (contained : word &&& flag = flag) :
    word &&& ~~~flag = word - flag := by
  have apart : (word &&& ~~~flag) &&& flag = 0 := by
    ext place inside
    simp
  rw [BitVec.eq_sub_iff_add_eq, BitVec.add_eq_or_of_and_eq_zero _ _ apart]
  ext place inside
  have bits := congrArg (fun bits : BitVec size => bits[place]) contained
  simp only [BitVec.getElem_and, BitVec.getElem_or, BitVec.getElem_not] at bits ⊢
  revert bits
  cases flag[place] with
  | false => simp
  | true => simp

theorem and_not_unit (fits : shift + 1 ≤ size) (raised : field shift 1 word ≠ 0) :
    word &&& ~~~(BitVec.ofNat size 1 <<< shift) = word - BitVec.ofNat size 1 <<< shift := by
  have bound := field_lt shift 1 word
  have one : field shift 1 word = 1 := by omega
  apply and_not_eq_sub
  rw [← BitVec.toNat_inj, to_nat_unit fits, unit_eq_mask, to_nat_and_mask fits, one, Nat.one_mul]

end Rustfs.Library.BitField
