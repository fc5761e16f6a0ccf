import Mathlib.Data.List.Count
import Mathlib.Data.Nat.Bitwise
import Mathlib.Tactic.Ring

/-!
# Numbers as groups of seven bits

A number is written in groups of seven bits, the lowest first; the last byte is the one below
`0x80`. It is read into a word of 64 bits, in which shift distances count modulo the word size.
-/

namespace Rustfs.Library.Varint

open List Option

/-- `none` if the bytes do not fit into the room. -/
def encode : Nat → Nat → Option (List UInt8)
  | 0, _ => none
  | room + 1, n =>
    if n < 128 then some [UInt8.ofNat n]
    else (encode room (n / 128)).map fun bytes => UInt8.ofNat (n % 128 + 128) :: bytes

def ends (byte : UInt8) : Bool := byte.toNat < 128

def decodeFrom (result shift : Nat) : List UInt8 → Option (Nat × List UInt8)
  | [] => none
  | byte :: rest =>
    let result := result ||| (byte.toNat % 128) <<< (shift % 64) % 2 ^ 64
    if ends byte then some (result, rest) else decodeFrom result (shift + 7) rest

theorem encode_succ (room n : Nat) : encode (room + 1) n =
    if n < 128 then some [UInt8.ofNat n]
    else (encode room (n / 128)).map fun bytes => UInt8.ofNat (n % 128 + 128) :: bytes := rfl

theorem decode_from_cons (result shift : Nat) (byte : UInt8) (rest : List UInt8) :
    decodeFrom result shift (byte :: rest) =
      if ends byte then some (result ||| (byte.toNat % 128) <<< (shift % 64) % 2 ^ 64, rest)
      else decodeFrom (result ||| (byte.toNat % 128) <<< (shift % 64) % 2 ^ 64) (shift + 7) rest := rfl

variable {room n : Nat} {bytes : List UInt8}

theorem encode_some (fits : n < 128 ^ (room + 1)) : ∃ bytes, encode (room + 1) n = some bytes := by
  induction room generalizing n with
  | zero =>
    rw [encode_succ, if_pos (by simpa using fits)]
    exact ⟨_, rfl⟩
  | succ room ih =>
    rw [encode_succ]
    split
    · exact ⟨_, rfl⟩
    · have smaller : n / 128 < 128 ^ (room + 1) := by
        rw [Nat.div_lt_iff_lt_mul (by decide)]
        exact fits
      obtain ⟨bytes, written⟩ := ih smaller
      rw [written]
      exact ⟨_, rfl⟩

theorem encode_lt (written : encode room n = some bytes) : n < 128 ^ room := by
  induction room generalizing n bytes with
  | zero => cases written
  | succ room ih =>
    rw [encode_succ] at written
    split at written
    · have := Nat.one_le_pow room 128 (by decide)
      omega
    · obtain ⟨rest, isRest, _⟩ := map_eq_some_iff.1 written
      have := ih isRest
      omega

theorem ends_last {n : Nat} (small : n < 128) : ends (UInt8.ofNat n) = true := by
  unfold ends
  rw [UInt8.toNat_ofNat', Nat.mod_eq_of_lt (by omega)]
  exact decide_eq_true small

theorem goes_on (n : Nat) : ends (UInt8.ofNat (n % 128 + 128)) = false := by
  unfold ends
  rw [UInt8.toNat_ofNat', Nat.mod_eq_of_lt (by omega)]
  exact decide_eq_false (by omega)

theorem encode_ends_once (written : encode room n = some bytes) : bytes.countP ends = 1 := by
  induction room generalizing n bytes with
  | zero => cases written
  | succ room ih =>
    rw [encode_succ] at written
    split at written
    · rename_i small
      cases written
      rw [countP_cons_of_pos (ends_last small), countP_nil]
    · obtain ⟨rest, isRest, rfl⟩ := map_eq_some_iff.1 written
      rw [countP_cons_of_neg (by rw [goes_on]; exact Bool.false_ne_true), ih isRest]

theorem place_group {result shift group : Nat} (below : result < 2 ^ shift) (small : group < 128)
    (inside : shift + 7 ≤ 64) :
    result ||| group <<< (shift % 64) % 2 ^ 64 = result + group * 2 ^ shift := by
  have fits : group <<< shift < 2 ^ 64 := by
    rw [Nat.shiftLeft_eq]
    calc group * 2 ^ shift < 2 ^ 7 * 2 ^ shift :=
          Nat.mul_lt_mul_of_pos_right small (Nat.two_pow_pos shift)
      _ = 2 ^ (7 + shift) := (Nat.pow_add 2 7 shift).symm
      _ ≤ 2 ^ 64 := Nat.pow_le_pow_right (by decide) (by omega)
  rw [Nat.mod_eq_of_lt (show shift < 64 by omega), Nat.mod_eq_of_lt fits, Nat.or_comm,
    ← Nat.shiftLeft_add_eq_or_of_lt below, Nat.shiftLeft_eq, Nat.add_comm]

/-- What was written is read back. -/
theorem decode_encode (written : encode room n = some bytes)
    {result shift : Nat} (below : result < 2 ^ shift) (inside : shift + 7 * room ≤ 64)
    (rest : List UInt8) :
    decodeFrom result shift (bytes ++ rest) = some (result + n * 2 ^ shift, rest) := by
  induction room generalizing n bytes result shift with
  | zero => cases written
  | succ room ih =>
    rw [encode_succ] at written
    split at written
    · rename_i small
      cases written
      have isByte : (UInt8.ofNat n).toNat = n := by
        rw [UInt8.toNat_ofNat', Nat.mod_eq_of_lt (by omega)]
      rw [singleton_append, decode_from_cons]
      rw [ends_last small, if_pos rfl, isByte, Nat.mod_eq_of_lt small,
        place_group below small (by omega)]
    · obtain ⟨others, isOthers, rfl⟩ := map_eq_some_iff.1 written
      have isByte : (UInt8.ofNat (n % 128 + 128)).toNat % 128 = n % 128 := by
        rw [UInt8.toNat_ofNat']
        omega
      have group : n % 128 < 128 := Nat.mod_lt _ (by decide)
      have next : result + n % 128 * 2 ^ shift < 2 ^ (shift + 7) := by
        rw [Nat.pow_add]
        have := Nat.mul_le_mul_right (2 ^ shift) (Nat.le_pred_of_lt group)
        simp only [Nat.pred_eq_sub_one] at this
        omega
      rw [cons_append, decode_from_cons]
      rw [goes_on, if_neg Bool.false_ne_true, isByte, place_group below group (by omega),
        ih isOthers next (by omega)]
      have split : n = n % 128 + 128 * (n / 128) := (Nat.mod_add_div n 128).symm
      have sum : result + n % 128 * 2 ^ shift + n / 128 * 2 ^ (shift + 7) =
          result + n * 2 ^ shift := by
        conv_rhs => rw [split]
        ring
      rw [sum]

theorem decode_ends_once {result shift n : Nat} {bytes rest : List UInt8}
    (read : decodeFrom result shift bytes = some (n, rest)) :
    ∃ used, bytes = used ++ rest ∧ used.countP ends = 1 := by
  induction bytes generalizing result shift with
  | nil => cases read
  | cons byte bytes ih =>
    rw [decode_from_cons] at read
    split at read
    · rename_i isEnd
      cases read
      exact ⟨[byte], rfl, by rw [countP_cons_of_pos isEnd, countP_nil]⟩
    · rename_i notEnd
      obtain ⟨used, rfl, once⟩ := ih read
      exact ⟨byte :: used, rfl, by rw [countP_cons_of_neg notEnd, once]⟩

end Rustfs.Library.Varint
