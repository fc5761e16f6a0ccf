import Mathlib.Tactic.Ring
import Mathlib.Tactic.Linarith
import Mathlib.Data.Fin.Basic
import Rustfs.Library.ByteReader

/-!
# MessagePack

Markers, the primitives that write the shortest form of an integer or a length,
the primitives that read every admitted form back, and the grammar of complete
values (`IsValue`). The names follow the primitives of the `rmp` crate.
-/

namespace Rustfs.Library.MessagePack

open Library.ByteReader

/-- The low `width` bytes of a number, most significant first. -/
def beBytes : Nat → Nat → Bytes
  | 0, _ => []
  | width + 1, n => UInt8.ofNat (n / 256 ^ width) :: beBytes width n

def beNat : Bytes → Nat
  | [] => 0
  | byte :: rest => byte.toNat * 256 ^ rest.length + beNat rest

@[simp] theorem be_bytes_length (width n : Nat) : (beBytes width n).length = width := by
  induction width with
  | zero => rfl
  | succ width ih => simp [beBytes, ih]

theorem be_nat_be_bytes_mod (width n : Nat) : beNat (beBytes width n) = n % 256 ^ width := by
  induction width with
  | zero => simp [beBytes, beNat, Nat.mod_one]
  | succ width ih =>
    have byte : (UInt8.ofNat (n / 256 ^ width)).toNat = n / 256 ^ width % 256 :=
      UInt8.toNat_ofNat'
    rw [beBytes, beNat, ih, be_bytes_length, byte, Nat.pow_succ, Nat.mod_mul]
    ring

theorem be_nat_be_bytes {width n : Nat} (fits : n < 256 ^ width) : beNat (beBytes width n) = n := by
  rw [be_nat_be_bytes_mod, Nat.mod_eq_of_lt fits]

theorem be_nat_lt (bytes : Bytes) : beNat bytes < 256 ^ bytes.length := by
  induction bytes with
  | nil => simp [beNat]
  | cons byte rest ih =>
    rw [beNat, List.length_cons, Nat.pow_succ]
    have bounded := byte.toNat_lt
    nlinarith

/-- Two's complement reading of a `width`-byte number. -/
def signed (width n : Nat) : Int :=
  if 2 * n < 256 ^ width then n else n - 256 ^ width

def beInt (width : Nat) (value : Int) : Bytes := beBytes width (value % 256 ^ width).toNat

variable {value : Int} {width len : Nat}

theorem signed_be_int (lower : -(256 ^ width) ≤ 2 * value)
    (upper : 2 * value < 256 ^ width) : signed width (beNat (beInt width value)) = value := by
  have positive : (0 : Int) < 256 ^ width := by positivity
  have nonneg := Int.emod_nonneg value positive.ne'
  rw [beInt, be_nat_be_bytes (by zify; omega), signed]
  rcases lt_or_ge value 0 with negative | nonnegative
  · have shifted : value % 256 ^ width = value + 256 ^ width := by
      rw [← Int.add_emod_right, Int.emod_eq_of_lt (by omega) (by omega)]
    rw [if_neg (by zify; omega), Int.toNat_of_nonneg nonneg, shifted]
    omega
  · have same : value % 256 ^ width = value := Int.emod_eq_of_lt nonnegative (by omega)
    rw [if_pos (by zify; omega), Int.toNat_of_nonneg nonneg, same]

inductive Marker
  | fixPos (value : Fin 128)
  | fixMap (len : Fin 16)
  | fixArray (len : Fin 16)
  | fixStr (len : Fin 32)
  | null
  | reserved
  | boolFalse
  | boolTrue
  | bin8
  | bin16
  | bin32
  | ext8
  | ext16
  | ext32
  | f32
  | f64
  | u8
  | u16
  | u32
  | u64
  | i8
  | i16
  | i32
  | i64
  | fixExt1
  | fixExt2
  | fixExt4
  | fixExt8
  | fixExt16
  | str8
  | str16
  | str32
  | array16
  | array32
  | map16
  | map32
  | fixNeg (value : Fin 32)
  deriving DecidableEq

namespace Marker

def toU8 : Marker → UInt8
  | fixPos value => UInt8.ofNat value
  | fixMap len => UInt8.ofNat (0x80 + len)
  | fixArray len => UInt8.ofNat (0x90 + len)
  | fixStr len => UInt8.ofNat (0xa0 + len)
  | null => 0xc0
  | reserved => 0xc1
  | boolFalse => 0xc2
  | boolTrue => 0xc3
  | bin8 => 0xc4
  | bin16 => 0xc5
  | bin32 => 0xc6
  | ext8 => 0xc7
  | ext16 => 0xc8
  | ext32 => 0xc9
  | f32 => 0xca
  | f64 => 0xcb
  | u8 => 0xcc
  | u16 => 0xcd
  | u32 => 0xce
  | u64 => 0xcf
  | i8 => 0xd0
  | i16 => 0xd1
  | i32 => 0xd2
  | i64 => 0xd3
  | fixExt1 => 0xd4
  | fixExt2 => 0xd5
  | fixExt4 => 0xd6
  | fixExt8 => 0xd7
  | fixExt16 => 0xd8
  | str8 => 0xd9
  | str16 => 0xda
  | str32 => 0xdb
  | array16 => 0xdc
  | array32 => 0xdd
  | map16 => 0xde
  | map32 => 0xdf
  | fixNeg value => UInt8.ofNat (0xe0 + value)

/-- The markers between the fixed-size forms and the negative integers. -/
def fromCode : Nat → Marker
  | 0xc0 => null
  | 0xc2 => boolFalse
  | 0xc3 => boolTrue
  | 0xc4 => bin8
  | 0xc5 => bin16
  | 0xc6 => bin32
  | 0xc7 => ext8
  | 0xc8 => ext16
  | 0xc9 => ext32
  | 0xca => f32
  | 0xcb => f64
  | 0xcc => u8
  | 0xcd => u16
  | 0xce => u32
  | 0xcf => u64
  | 0xd0 => i8
  | 0xd1 => i16
  | 0xd2 => i32
  | 0xd3 => i64
  | 0xd4 => fixExt1
  | 0xd5 => fixExt2
  | 0xd6 => fixExt4
  | 0xd7 => fixExt8
  | 0xd8 => fixExt16
  | 0xd9 => str8
  | 0xda => str16
  | 0xdb => str32
  | 0xdc => array16
  | 0xdd => array32
  | 0xde => map16
  | 0xdf => map32
  | _ => reserved

def fromU8 (byte : UInt8) : Marker :=
  if pos : byte.toNat < 0x80 then fixPos ⟨byte.toNat, pos⟩
  else if map : byte.toNat < 0x90 then fixMap ⟨byte.toNat - 0x80, by omega⟩
  else if array : byte.toNat < 0xa0 then fixArray ⟨byte.toNat - 0x90, by omega⟩
  else if str : byte.toNat < 0xc0 then fixStr ⟨byte.toNat - 0xa0, by omega⟩
  else if byte.toNat < 0xe0 then fromCode byte.toNat
  else fixNeg ⟨byte.toNat - 0xe0, by have := byte.toNat_lt; omega⟩

@[simp] theorem from_u8_to_u8 (marker : Marker) : fromU8 marker.toU8 = marker := by
  cases marker with
  | fixPos value => revert value; decide
  | fixMap len | fixArray len | fixStr len => revert len; decide
  | fixNeg value => revert value; decide
  | _ => rfl

end Marker

inductive ReadError
  | invalidMarkerRead
  | invalidDataRead
  | typeMismatch (marker : Marker)
  | outOfRange
  deriving DecidableEq

def readByte {ε : Type} (eof : ε) : Reader ε UInt8 := fun input =>
  match input with
  | [] => .error eof
  | byte :: rest => .ok (byte, rest)

def readMarker : Reader ReadError Marker := do
  let byte ← readByte .invalidMarkerRead
  pure (Marker.fromU8 byte)

def readData (width : Nat) : Reader ReadError Nat := do
  let bytes ← take .invalidDataRead width
  pure (beNat bytes)

def readArrayLen : Reader ReadError Nat := do
  match ← readMarker with
  | .fixArray len => pure len
  | .array16 => readData 2
  | .array32 => readData 4
  | marker => throw (.typeMismatch marker)

def readMapLen : Reader ReadError Nat := do
  match ← readMarker with
  | .fixMap len => pure len
  | .map16 => readData 2
  | .map32 => readData 4
  | marker => throw (.typeMismatch marker)

def readStrLen : Reader ReadError Nat := do
  match ← readMarker with
  | .fixStr len => pure len
  | .str8 => readData 1
  | .str16 => readData 2
  | .str32 => readData 4
  | marker => throw (.typeMismatch marker)

def readBinLen : Reader ReadError Nat := do
  match ← readMarker with
  | .bin8 => readData 1
  | .bin16 => readData 2
  | .bin32 => readData 4
  | marker => throw (.typeMismatch marker)

def readU32 : Reader ReadError Nat := do
  match ← readMarker with
  | .u32 => readData 4
  | marker => throw (.typeMismatch marker)

def readBool : Reader ReadError Bool := do
  match ← readMarker with
  | .boolTrue => pure true
  | .boolFalse => pure false
  | marker => throw (.typeMismatch marker)

/-- The integer behind any of the integer markers. -/
def readInteger : Reader ReadError Int := do
  match ← readMarker with
  | .fixPos value => pure (value.val : Int)
  | .fixNeg value => pure ((value.val : Int) - 32)
  | .u8 => return (← readData 1 : Nat)
  | .u16 => return (← readData 2 : Nat)
  | .u32 => return (← readData 4 : Nat)
  | .u64 => return (← readData 8 : Nat)
  | .i8 => return signed 1 (← readData 1)
  | .i16 => return signed 2 (← readData 2)
  | .i32 => return signed 4 (← readData 4)
  | .i64 => return signed 8 (← readData 8)
  | marker => throw (.typeMismatch marker)

/-- `read_int` at a target type that holds the integers from `lower` to `upper`. -/
def readInt (lower upper : Int) : Reader ReadError Int := do
  let value ← readInteger
  if lower ≤ value ∧ value ≤ upper then pure value else throw .outOfRange

def writeNil : Bytes := [Marker.null.toU8]

def writeBool (value : Bool) : Bytes :=
  [if value then Marker.boolTrue.toU8 else Marker.boolFalse.toU8]

def writeU32 (value : Nat) : Bytes := Marker.u32.toU8 :: beBytes 4 value

def writeI64 (value : Int) : Bytes := Marker.i64.toU8 :: beInt 8 value

def writeUint (value : Nat) : Bytes :=
  if small : value < 128 then [(Marker.fixPos ⟨value, small⟩).toU8]
  else if value < 256 then Marker.u8.toU8 :: beBytes 1 value
  else if value < 65536 then Marker.u16.toU8 :: beBytes 2 value
  else if value < 4294967296 then Marker.u32.toU8 :: beBytes 4 value
  else Marker.u64.toU8 :: beBytes 8 value

def writeSint (value : Int) : Bytes :=
  if small : -32 ≤ value ∧ value < 0 then
    [(Marker.fixNeg ⟨(value + 32).toNat, by omega⟩).toU8]
  else if -128 ≤ value ∧ value < -32 then Marker.i8.toU8 :: beInt 1 value
  else if -32768 ≤ value ∧ value < -128 then Marker.i16.toU8 :: beInt 2 value
  else if -2147483648 ≤ value ∧ value < -32768 then Marker.i32.toU8 :: beInt 4 value
  else if value < -2147483648 then Marker.i64.toU8 :: beInt 8 value
  else writeUint value.toNat

def writeArrayLen (len : Nat) : Bytes :=
  if small : len < 16 then [(Marker.fixArray ⟨len, small⟩).toU8]
  else if len < 65536 then Marker.array16.toU8 :: beBytes 2 len
  else Marker.array32.toU8 :: beBytes 4 len

def writeMapLen (len : Nat) : Bytes :=
  if small : len < 16 then [(Marker.fixMap ⟨len, small⟩).toU8]
  else if len < 65536 then Marker.map16.toU8 :: beBytes 2 len
  else Marker.map32.toU8 :: beBytes 4 len

def writeStrLen (len : Nat) : Bytes :=
  if small : len < 32 then [(Marker.fixStr ⟨len, small⟩).toU8]
  else if len < 256 then Marker.str8.toU8 :: beBytes 1 len
  else if len < 65536 then Marker.str16.toU8 :: beBytes 2 len
  else Marker.str32.toU8 :: beBytes 4 len

def writeBinLen (len : Nat) : Bytes :=
  if len < 256 then Marker.bin8.toU8 :: beBytes 1 len
  else if len < 65536 then Marker.bin16.toU8 :: beBytes 2 len
  else Marker.bin32.toU8 :: beBytes 4 len

/-- Lengths are handed to the length writers as `u32`. -/
def asU32 (len : Nat) : Nat := len % 2 ^ 32

def writeStr (bytes : Bytes) : Bytes := writeStrLen (asU32 bytes.length) ++ bytes

def writeBin (bytes : Bytes) : Bytes := writeBinLen (asU32 bytes.length) ++ bytes

theorem as_u32_eq (fits : len < 2 ^ 32) : asU32 len = len :=
  Nat.mod_eq_of_lt fits

theorem reads_byte {ε : Type} (eof : ε) (byte : UInt8) : Reads (readByte eof) [byte] byte :=
  fun _ => rfl

theorem reads_marker (marker : Marker) : Reads readMarker [marker.toU8] marker := by
  have reads : Reads readMarker [marker.toU8] (Marker.fromU8 marker.toU8) :=
    (reads_byte ReadError.invalidMarkerRead marker.toU8).bind_pure
  rwa [Marker.from_u8_to_u8] at reads

theorem reads_data {width n : Nat} (fits : n < 256 ^ width) :
    Reads (readData width) (beBytes width n) n := by
  have reads : Reads (readData width) (beBytes width n) (beNat (beBytes width n)) :=
    (Reads.take_of_length ReadError.invalidDataRead (be_bytes_length width n)).bind_pure
  rwa [be_nat_be_bytes fits] at reads

theorem reads_after_marker {α : Type} {branch : Marker → Reader ReadError α} {bytes : Bytes}
    {value : α} (marker : Marker) (reads : Reads (branch marker) bytes value) :
    Reads (readMarker >>= branch) (marker.toU8 :: bytes) value :=
  (reads_marker marker).bind reads

theorem reads_array_len (fits : len < 2 ^ 32) : Reads readArrayLen (writeArrayLen len) len := by
  unfold writeArrayLen
  split
  · exact reads_after_marker (.fixArray _) (Reads.pure _)
  split
  · exact reads_after_marker .array16 (reads_data (by omega))
  · exact reads_after_marker .array32 (reads_data (by omega))

theorem reads_map_len (fits : len < 2 ^ 32) : Reads readMapLen (writeMapLen len) len := by
  unfold writeMapLen
  split
  · exact reads_after_marker (.fixMap _) (Reads.pure _)
  split
  · exact reads_after_marker .map16 (reads_data (by omega))
  · exact reads_after_marker .map32 (reads_data (by omega))

theorem reads_str_len (fits : len < 2 ^ 32) : Reads readStrLen (writeStrLen len) len := by
  unfold writeStrLen
  split
  · exact reads_after_marker (.fixStr _) (Reads.pure _)
  split
  · exact reads_after_marker .str8 (reads_data (by omega))
  split
  · exact reads_after_marker .str16 (reads_data (by omega))
  · exact reads_after_marker .str32 (reads_data (by omega))

theorem reads_bin_len (fits : len < 2 ^ 32) : Reads readBinLen (writeBinLen len) len := by
  unfold writeBinLen
  split
  · exact reads_after_marker .bin8 (reads_data (by omega))
  split
  · exact reads_after_marker .bin16 (reads_data (by omega))
  · exact reads_after_marker .bin32 (reads_data (by omega))

theorem reads_u32 {value : Nat} (fits : value < 2 ^ 32) : Reads readU32 (writeU32 value) value :=
  reads_after_marker .u32 (reads_data (by omega))

theorem reads_bool (value : Bool) : Reads readBool (writeBool value) value := by
  cases value with
  | true => exact reads_after_marker .boolTrue (Reads.pure _)
  | false => exact reads_after_marker .boolFalse (Reads.pure _)

theorem reads_uint {value : Nat} (fits : value < 2 ^ 64) :
    Reads readInteger (writeUint value) value := by
  unfold writeUint
  split
  · exact reads_after_marker (.fixPos _) (Reads.pure _)
  split
  · exact reads_after_marker .u8 (reads_data (by omega)).bind_pure
  split
  · exact reads_after_marker .u16 (reads_data (by omega)).bind_pure
  split
  · exact reads_after_marker .u32 (reads_data (by omega)).bind_pure
  · exact reads_after_marker .u64 (reads_data (by omega)).bind_pure

theorem reads_signed (lower : -(256 ^ width) ≤ 2 * value) (upper : 2 * value < 256 ^ width) :
    Reads (readData width >>= fun n => pure (signed width n)) (beInt width value) value := by
  have fits : (value % 256 ^ width).toNat < 256 ^ width := by zify; omega
  have reads : Reads (readData width >>= fun n => pure (signed width n)) (beInt width value)
      (signed width (value % 256 ^ width).toNat) := (reads_data fits).bind_pure
  have back := signed_be_int lower upper
  rw [beInt, be_nat_be_bytes fits] at back
  rwa [back] at reads

theorem reads_i64 (lower : -(2 ^ 63) ≤ value) (upper : value < 2 ^ 63) :
    Reads readInteger (writeI64 value) value :=
  reads_after_marker .i64 (reads_signed (by omega) (by omega))

theorem reads_sint (lower : -(2 ^ 63) ≤ value) (upper : value < 2 ^ 63) :
    Reads readInteger (writeSint value) value := by
  unfold writeSint
  split
  case isTrue small =>
    have reads : Reads readInteger [(Marker.fixNeg ⟨(value + 32).toNat, by omega⟩).toU8]
        (((value + 32).toNat : Int) - 32) := reads_after_marker (.fixNeg _) (Reads.pure _)
    have back : ((value + 32).toNat : Int) - 32 = value := by omega
    rwa [back] at reads
  split
  · exact reads_after_marker .i8 (reads_signed (by omega) (by omega))
  split
  · exact reads_after_marker .i16 (reads_signed (by omega) (by omega))
  split
  · exact reads_after_marker .i32 (reads_signed (by omega) (by omega))
  split
  · exact reads_after_marker .i64 (reads_signed (by omega) (by omega))
  · have reads : Reads readInteger (writeUint value.toNat) (value.toNat : Int) :=
      reads_uint (by omega)
    rwa [Int.toNat_of_nonneg (by omega)] at reads

theorem reads_int {lower upper value : Int} {bytes : Bytes}
    (reads : Reads readInteger bytes value) (above : lower ≤ value) (below : value ≤ upper) :
    Reads (readInt lower upper) bytes value := by
  have checked : Reads (if lower ≤ value ∧ value ≤ upper then pure value
      else throw .outOfRange : Reader ReadError Int) [] value := by
    rw [if_pos ⟨above, below⟩]
    exact Reads.pure value
  have result : Reads (readInt lower upper) (bytes ++ []) value := reads.bind checked
  rwa [List.append_nil] at result

theorem yields_data (width : Nat) : Yields (readData width) fun n => n < 256 ^ width := by
  refine Yields.bind (Yields.take _ width) ?_
  intro bytes length
  apply Yields.pure
  rw [← length]
  exact be_nat_lt bytes

theorem yields_data_u32 (narrow : width ≤ 4) : Yields (readData width) fun n => n < 2 ^ 32 := by
  refine (yields_data width).mono ?_
  intro n below
  exact below.trans_le (Nat.pow_le_pow_right (by decide) narrow)

theorem yields_array_len : Yields readArrayLen fun len => len < 2 ^ 32 := by
  apply Yields.bind_any
  intro marker
  cases marker with
  | fixArray len => exact Yields.pure (by omega)
  | array16 | array32 => exact yields_data_u32 (by decide)
  | _ => exact Yields.throw

theorem yields_map_len : Yields readMapLen fun len => len < 2 ^ 32 := by
  apply Yields.bind_any
  intro marker
  cases marker with
  | fixMap len => exact Yields.pure (by omega)
  | map16 | map32 => exact yields_data_u32 (by decide)
  | _ => exact Yields.throw

/-- What follows a marker byte. -/
inductive Layout
  | leaf (payload : Nat)
  | sized (width extra : Nat)
  | items (count : Nat)
  | counted (width perEntry : Nat)

/-- The layout MessagePack gives each marker; the reserved one starts no value. -/
def Marker.layout : Marker → Option Layout
  | fixPos _ | fixNeg _ | null | boolFalse | boolTrue => some (.leaf 0)
  | u8 | i8 => some (.leaf 1)
  | u16 | i16 => some (.leaf 2)
  | u32 | i32 | f32 => some (.leaf 4)
  | u64 | i64 | f64 => some (.leaf 8)
  | fixExt1 => some (.leaf 2)
  | fixExt2 => some (.leaf 3)
  | fixExt4 => some (.leaf 5)
  | fixExt8 => some (.leaf 9)
  | fixExt16 => some (.leaf 17)
  | fixStr len => some (.leaf len)
  | str8 | bin8 => some (.sized 1 0)
  | str16 | bin16 => some (.sized 2 0)
  | str32 | bin32 => some (.sized 4 0)
  | ext8 => some (.sized 1 1)
  | ext16 => some (.sized 2 1)
  | ext32 => some (.sized 4 1)
  | fixArray len => some (.items len)
  | fixMap len => some (.items (2 * len))
  | array16 => some (.counted 2 1)
  | array32 => some (.counted 4 1)
  | map16 => some (.counted 2 2)
  | map32 => some (.counted 4 2)
  | reserved => none

/-- `AreValues count bytes`: the bytes are `count` complete values in a row. -/
inductive AreValues : Nat → Bytes → Prop
  | done : AreValues 0 []
  | leaf {count : Nat} {bytes : Bytes} (marker : Marker) (payload : Bytes)
      (layout : marker.layout = some (.leaf payload.length)) (rest : AreValues count bytes) :
      AreValues (count + 1) (marker.toU8 :: (payload ++ bytes))
  | sized {count : Nat} {bytes : Bytes} (marker : Marker) {width extra : Nat} (len : Nat)
      (payload : Bytes) (layout : marker.layout = some (.sized width extra))
      (fits : len < 256 ^ width) (length : payload.length = len + extra)
      (rest : AreValues count bytes) :
      AreValues (count + 1) (marker.toU8 :: (beBytes width len ++ payload ++ bytes))
  | items {count inner : Nat} {bytes within : Bytes} (marker : Marker)
      (layout : marker.layout = some (.items inner)) (values : AreValues inner within)
      (rest : AreValues count bytes) :
      AreValues (count + 1) (marker.toU8 :: (within ++ bytes))
  | counted {count width perEntry : Nat} {bytes within : Bytes} (marker : Marker) (entries : Nat)
      (layout : marker.layout = some (.counted width perEntry)) (fits : entries < 256 ^ width)
      (values : AreValues (perEntry * entries) within) (rest : AreValues count bytes) :
      AreValues (count + 1) (marker.toU8 :: (beBytes width entries ++ within ++ bytes))

def IsValue (bytes : Bytes) : Prop := AreValues 1 bytes

end Rustfs.Library.MessagePack
