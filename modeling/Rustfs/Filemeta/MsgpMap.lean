import Rustfs.Library.KeyMap
import Rustfs.Library.MessagePack
import Rustfs.Filemeta.VersionHeader
import Mathlib.Data.String.Basic

/-!
# MessagePack helpers of the metadata codec

The error type, the readers of `msgp_decode.rs` with the element limit, the
string, binary, integer and time elements of the version bodies, and what each
of them reads back.
-/

namespace Rustfs.Filemeta

open List Library Library.MessagePack
open Library.ByteReader (Reader Reads Yields Steps)

section

/-- The errors of the metadata code. The source keeps the text of the library
errors; the model keeps the errors themselves. -/
inductive Error
  | fileNotFound
  | fileVersionNotFound
  | fileCorrupt
  | methodNotAllowed
  | maxVersionsExceeded
  | unexpected
  | other (message : String)
  | rmpSerdeDecode (payload : Bytes)
  | fromUtf8 (bytes : Bytes)
  | rmpDecodeValueRead (error : ReadError)
  | rmpDecodeNumValueRead (error : ReadError)
  | rmpDecodeMarkerRead
  | timeComponentRange (nanos : Int)
  | uuidParse (text : String)
  deriving DecidableEq

abbrev Decode := Reader Error

def valueRead {α : Type} (reader : Reader ReadError α) : Decode α :=
  ByteReader.mapError .rmpDecodeValueRead reader

def numRead {α : Type} (reader : Reader ReadError α) : Decode α :=
  ByteReader.mapError .rmpDecodeNumValueRead reader

def maxMsgpElementSize : Nat := 16 * 2 ^ 20

def readExactVec (len : Nat) : Decode Bytes :=
  if maxMsgpElementSize < len then
    throw (.other ("corrupt msgpack element: length " ++ toString len ++ " exceeds the " ++
      toString maxMsgpElementSize ++ " byte limit"))
  else ByteReader.take .unexpected len

def hexByte (byte : UInt8) : String :=
  let digits := Nat.toDigits 16 byte.toNat
  String.ofList (if digits.length < 2 then '0' :: digits else digits)

def readExactNat (width : Nat) : Decode Nat := do
  let bytes ← ByteReader.take .unexpected width
  pure (beNat bytes)

def readNilOrArrayLen : Decode (Option Nat) := do
  let byte ← readByte .unexpected
  match Marker.fromU8 byte with
  | .null => pure none
  | .fixArray len => pure (some len.val)
  | .array16 => return some (← readExactNat 2)
  | .array32 => return some (← readExactNat 4)
  | _ => throw (.other ("expected nil or array, got marker 0x" ++ hexByte byte))

def readNilOrMapLen : Decode (Option Nat) := do
  let byte ← readByte .unexpected
  match Marker.fromU8 byte with
  | .null => pure none
  | .fixMap len => pure (some len.val)
  | .map16 => return some (← readExactNat 2)
  | .map32 => return some (← readExactNat 4)
  | _ => throw (.other ("expected nil or map, got marker 0x" ++ hexByte byte))

/-- The payload is discarded; a truncated one is an `UnexpectedEof`. -/
def discard (len : Nat) : Decode Unit := do
  let _ ← ByteReader.take .unexpected len
  pure ()

/-- The source recurses into containers; the recursion depth runs on fuel here
and the length of the input is enough, since every level consumes its marker. -/
def skipValue : Nat → Decode Unit
  | 0 => throw .unexpected
  | depth + 1 => do
      let marker ← ByteReader.mapError (fun _ => .rmpDecodeMarkerRead) readMarker
      match marker with
      | .null | .boolFalse | .boolTrue => pure ()
      | .fixPos _ | .fixNeg _ => pure ()
      | .u8 => discard 1
      | .u16 => discard 2
      | .u32 => discard 4
      | .u64 => discard 8
      | .i8 => discard 1
      | .i16 => discard 2
      | .i32 => discard 4
      | .i64 => discard 8
      | .f32 => discard 4
      | .f64 => discard 8
      | .fixStr len => discard len
      | .str8 => do discard (← readExactNat 1)
      | .str16 => do discard (← readExactNat 2)
      | .str32 => do discard (← readExactNat 4)
      | .bin8 => do discard (← readExactNat 1)
      | .bin16 => do discard (← readExactNat 2)
      | .bin32 => do discard (← readExactNat 4)
      | .fixArray len => ByteReader.iterate (fun _ => skipValue depth) len ()
      | .array16 => do ByteReader.iterate (fun _ => skipValue depth) (← readExactNat 2) ()
      | .array32 => do ByteReader.iterate (fun _ => skipValue depth) (← readExactNat 4) ()
      | .fixMap len => ByteReader.iterate (fun _ => skipValue depth) (2 * len) ()
      | .map16 => do ByteReader.iterate (fun _ => skipValue depth) (2 * (← readExactNat 2)) ()
      | .map32 => do ByteReader.iterate (fun _ => skipValue depth) (2 * (← readExactNat 4)) ()
      | .fixExt1 => discard 2
      | .fixExt2 => discard 3
      | .fixExt4 => discard 5
      | .fixExt8 => discard 9
      | .fixExt16 => discard 17
      | .ext8 => do discard (1 + (← readExactNat 1))
      | .ext16 => do discard (1 + (← readExactNat 2))
      | .ext32 => do discard (1 + (← readExactNat 4))
      | .reserved => pure ()

def skipMsgpValue : Decode Unit := fun input => skipValue (input.length + 1) input

def utf8 (text : String) : Bytes := text.toByteArray.data.toList

def stringFromUtf8 (bytes : Bytes) : Option String := String.fromUTF8? ⟨bytes.toArray⟩

def decodeUtf8 (bytes : Bytes) : Decode String :=
  match stringFromUtf8 bytes with
  | some text => pure text
  | none => throw (.fromUtf8 bytes)

def readMsgpString : Decode String := do
  let len ← valueRead readStrLen
  let buf ← readExactVec len
  decodeUtf8 buf

def readMsgpBin : Decode Bytes := do
  let len ← valueRead readBinLen
  readExactVec len

def minI64 : Int := -2 ^ 63

def maxI64 : Int := 2 ^ 63 - 1

/-- `rmp::decode::read_int::<i64, _>`. -/
def readI64 : Decode Int64 := do
  let value ← numRead (readInt minI64 maxI64)
  pure (Int64.ofInt value)

/-- `read_int::<i64, _>(rd)? as usize`. -/
def readUsize : Decode UInt64 := do
  let value ← readI64
  pure value.toUInt64

/-- `write_sint(wr, value as i64)` of a `usize`. -/
def writeUsize (value : UInt64) : Bytes := writeSint value.toInt64.toInt

def writeMsgpString (text : String) : Bytes := writeStr (utf8 text)

def nanosPerSecond : Int := 1000000000

/-- Ext8, twelve bytes, type 5: seconds and nanoseconds. -/
def writeMsgpTime (time : OffsetDateTime) : Bytes :=
  [0xc7, 12, 5] ++ beInt 8 (time.unixTimestampNanos / nanosPerSecond) ++
    beBytes 4 (time.unixTimestampNanos % nanosPerSecond).toNat

/-- Seconds and nanoseconds of a time extension, for the four accepted forms. -/
def msgpTimeParts (extType : Int) (payload : Bytes) : Option (Int × Nat) :=
  if extType = 5 ∧ payload.length = 12 then
    some (signed 8 (beNat (payload.take 8)), beNat (payload.drop 8))
  else if extType = -1 ∧ payload.length = 4 then some (beNat payload, 0)
  else if extType = -1 ∧ payload.length = 8 then
    some ((beNat payload % 2 ^ 34 : Nat), beNat payload / 2 ^ 34)
  else if extType = -1 ∧ payload.length = 12 then
    some (signed 8 (beNat (payload.drop 4)), beNat (payload.take 4))
  else none

def decodeMsgpTimePayload (extType : Int) (payload : Bytes) : Decode OffsetDateTime :=
  match msgpTimeParts extType payload with
  | none => throw (.other ("unsupported msgpack time ext type " ++ toString extType ++ " len " ++
      toString payload.length))
  | some (secs, nanos) =>
    if 999999999 < nanos then throw (.other ("invalid msgpack time nanos: " ++ toString nanos))
    else
      match OffsetDateTime.fromUnixTimestampNanos (secs * nanosPerSecond + nanos) with
      | some time => pure time
      | none => throw (.timeComponentRange (secs * nanosPerSecond + nanos))

/-- Length and type of the extension, read after its tag byte. -/
def readMsgpTimeHeader (tag : UInt8) : Decode (Nat × Int) := do
  if tag = 0xd6 then return (4, signed 1 (← readExactNat 1))
  else if tag = 0xd7 then return (8, signed 1 (← readExactNat 1))
  else if tag = 0xc7 then return (← readExactNat 1, signed 1 (← readExactNat 1))
  else if tag = 0xc8 then return (← readExactNat 2, signed 1 (← readExactNat 1))
  else if tag = 0xc9 then return (← readExactNat 4, signed 1 (← readExactNat 1))
  else throw (.other ("unsupported msgpack time marker: 0x" ++ hexByte tag))

def readMsgpTime : Decode OffsetDateTime := do
  let tag ← readByte .unexpected
  let (len, extType) ← readMsgpTimeHeader tag
  let payload ← readExactVec len
  decodeMsgpTimePayload extType payload

theorem discard_zero : discard 0 = pure () := by
  funext input
  simp [discard, ByteReader.take, StateT.bind, bind, Except.bind]

/-- What `skipValue` does after a marker, by the marker's layout. -/
def skipLayout (depth : Nat) : Option Layout → Decode Unit
  | some (.leaf payload) => discard payload
  | some (.sized width extra) => do discard (extra + (← readExactNat width))
  | some (.items count) => ByteReader.iterate (fun _ => skipValue depth) count ()
  | some (.counted width perEntry) => do
      ByteReader.iterate (fun _ => skipValue depth) (perEntry * (← readExactNat width)) ()
  | none => pure ()

theorem skip_value_layout (depth : Nat) :
    skipValue (depth + 1) = (do
      let marker ← ByteReader.mapError (fun _ => .rmpDecodeMarkerRead) readMarker
      skipLayout depth marker.layout) := by
  rw [skipValue]
  congr
  funext marker
  cases marker <;> simp [Marker.layout, skipLayout, discard_zero]

theorem reads_exact_nat {width n : Nat} (fits : n < 256 ^ width) :
    Reads (readExactNat width) (beBytes width n) n := by
  have reads : Reads (readExactNat width) (beBytes width n) (beNat (beBytes width n)) :=
    (Reads.take_of_length Error.unexpected (be_bytes_length width n)).bind_pure
  rwa [be_nat_be_bytes fits] at reads

theorem reads_discard (bytes : Bytes) : Reads (discard bytes.length) bytes () :=
  (Reads.take Error.unexpected bytes).bind_pure

variable {bytes : Bytes} {text : String}

theorem reads_skip_marker {depth : Nat} (marker : Marker)
    (reads : Reads (skipLayout depth marker.layout) bytes ()) :
    Reads (skipValue (depth + 1)) (marker.toU8 :: bytes) () := by
  rw [skip_value_layout]
  exact ((reads_marker marker).map_error _).bind reads

theorem reads_skip_values {count : Nat} (values : AreValues count bytes)
    (depth : Nat) (enough : bytes.length ≤ depth) :
    Reads (ByteReader.iterate (fun _ => skipValue depth) count ()) bytes () := by
  induction values generalizing depth with
  | done => exact Reads.pure ()
  | leaf marker payload layout _ ih =>
    cases depth with
    | zero => simp at enough
    | succ depth =>
      rw [length_cons, length_append] at enough
      have first : Reads (skipValue (depth + 1)) (marker.toU8 :: payload) () := by
        apply reads_skip_marker
        rw [layout]
        exact reads_discard payload
      exact first.bind (ih (depth + 1) (by omega))
  | sized marker len payload layout fits length _ ih =>
    rename_i width extra _
    cases depth with
    | zero => simp at enough
    | succ depth =>
      rw [length_cons, length_append] at enough
      have body : Reads (discard (extra + len)) payload () := by
        rw [Nat.add_comm, ← length]
        exact reads_discard payload
      have first : Reads (skipValue (depth + 1))
          (marker.toU8 :: (beBytes width len ++ payload)) () := by
        apply reads_skip_marker
        rw [layout]
        exact (reads_exact_nat fits).bind body
      exact first.bind (ih (depth + 1) (by omega))
  | items marker layout _ _ inside ih =>
    rename_i within _ _
    cases depth with
    | zero => simp at enough
    | succ depth =>
      rw [length_cons, length_append] at enough
      have first : Reads (skipValue (depth + 1)) (marker.toU8 :: within) () := by
        apply reads_skip_marker
        rw [layout]
        exact inside depth (by omega)
      exact first.bind (ih (depth + 1) (by omega))
  | counted marker entries layout fits _ _ inside ih =>
    rename_i width _ _ within _ _
    cases depth with
    | zero => simp at enough
    | succ depth =>
      rw [length_cons, length_append, length_append] at enough
      have first : Reads (skipValue (depth + 1))
          (marker.toU8 :: (beBytes width entries ++ within)) () := by
        apply reads_skip_marker
        rw [layout]
        exact (reads_exact_nat fits).bind (inside depth (by omega))
      exact first.bind (ih (depth + 1) (by omega))

theorem reads_skip_msgp_value (complete : IsValue bytes) : Reads skipMsgpValue bytes () := by
  intro rest
  have once := reads_skip_values complete ((bytes ++ rest).length + 1) (by simp; omega) rest
  obtain ⟨middle, left, ran, final⟩ := ByteReader.run_bind_eq_ok once
  cases final
  exact ran

theorem from_utf8_utf8 (text : String) : stringFromUtf8 (utf8 text) = some text := by
  have bytes : (⟨(utf8 text).toArray⟩ : ByteArray) = text.toByteArray := by
    simp [utf8]
  rw [stringFromUtf8, bytes, String.fromUTF8?, dif_pos text.isValidUTF8]
  rfl

theorem utf8_from_utf8 (decoded : stringFromUtf8 bytes = some text) : utf8 text = bytes := by
  rw [stringFromUtf8, String.fromUTF8?] at decoded
  split at decoded <;> cases decoded
  simp [utf8, String.fromUTF8]

theorem reads_exact_vec (short : bytes.length ≤ maxMsgpElementSize) :
    Reads (readExactVec bytes.length) bytes bytes := by
  rw [readExactVec, if_neg (Nat.not_lt.2 short)]
  exact Reads.take _ bytes

theorem element_fits {len : Nat} (short : len ≤ maxMsgpElementSize) : len < 2 ^ 32 := by
  rw [maxMsgpElementSize] at short
  omega

theorem reads_msgp_string (short : (utf8 text).length ≤ maxMsgpElementSize) :
    Reads readMsgpString (writeMsgpString text) text := by
  have fits := element_fits short
  have decoded : Reads (decodeUtf8 (utf8 text)) [] text := by
    rw [decodeUtf8, from_utf8_utf8]
    exact Reads.pure text
  have body := (reads_exact_vec short).bind decoded
  rw [append_nil] at body
  rw [writeMsgpString, writeStr, as_u32_eq fits]
  exact ((reads_str_len fits).map_error _).bind body

theorem reads_msgp_bin (short : bytes.length ≤ maxMsgpElementSize) :
    Reads readMsgpBin (writeBin bytes) bytes := by
  have fits := element_fits short
  rw [writeBin, as_u32_eq fits]
  exact ((reads_bin_len fits).map_error _).bind (reads_exact_vec short)

theorem reads_i64_of {value : Int64}
    (reads : Reads readInteger bytes value.toInt) : Reads readI64 bytes value := by
  have ranged : Reads (readInt minI64 maxI64) bytes value.toInt :=
    reads_int reads value.le_toInt (Int.le_sub_one_of_lt value.toInt_lt)
  have result : Reads readI64 bytes (Int64.ofInt value.toInt) := (ranged.map_error _).bind_pure
  rwa [Int64.ofInt_toInt] at result

theorem reads_sint_i64 (value : Int64) : Reads readI64 (writeSint value.toInt) value :=
  reads_i64_of (reads_sint value.le_toInt value.toInt_lt)

theorem reads_uint_i64 {value : Nat} (fits : value < 2 ^ 63) :
    Reads readI64 (writeUint value) (Int64.ofInt value) := by
  apply reads_i64_of
  rw [Int64.toInt_ofInt_of_le (by omega) (by omega)]
  exact reads_uint (by omega)

theorem reads_usize (value : UInt64) : Reads readUsize (writeUsize value) value :=
  (reads_sint_i64 value.toInt64).bind_pure

theorem reads_msgp_time (time : OffsetDateTime) : Reads readMsgpTime (writeMsgpTime time) time := by
  let secs := time.unixTimestampNanos / nanosPerSecond
  let nanos := (time.unixTimestampNanos % nanosPerSecond).toNat
  have positive : (0 : Int) < nanosPerSecond := by decide
  have range := time.inRange
  have nanosNonneg := Int.emod_nonneg time.unixTimestampNanos positive.ne'
  have split := Int.mul_ediv_add_emod time.unixTimestampNanos nanosPerSecond
  have nanosLt : nanos < 1000000000 := by
    simp only [nanos, nanosPerSecond] at *
    omega
  have secsRange : -(2 ^ 63) ≤ secs ∧ secs < 2 ^ 63 := by
    simp only [secs, nanosPerSecond, minUnixNanos, maxUnixNanos] at *
    omega
  have joined : secs * nanosPerSecond + nanos = time.unixTimestampNanos := by
    simp only [secs, nanos]
    rw [Int.toNat_of_nonneg nanosNonneg, Int.mul_comm]
    exact split
  have parts : msgpTimeParts 5 (beInt 8 secs ++ beBytes 4 nanos) = some (secs, nanos) := by
    rw [msgpTimeParts, if_pos (by simp [beInt])]
    have taken : (beInt 8 secs ++ beBytes 4 nanos).take 8 = beInt 8 secs :=
      take_left' (by simp [beInt])
    have dropped : (beInt 8 secs ++ beBytes 4 nanos).drop 8 = beBytes 4 nanos :=
      drop_left' (by simp [beInt])
    rw [taken, dropped, signed_be_int (by omega) (by omega), be_nat_be_bytes (by omega)]
  have payload : Reads (decodeMsgpTimePayload 5 (beInt 8 secs ++ beBytes 4 nanos)) [] time := by
    rw [decodeMsgpTimePayload, parts]
    simp only [joined]
    rw [if_neg (by omega), OffsetDateTime.fromUnixTimestampNanos, dif_pos range]
    exact Reads.pure time
  have length : (beInt 8 secs ++ beBytes 4 nanos).length = 12 := by simp [beInt]
  have vector : Reads (readExactVec 12) (beInt 8 secs ++ beBytes 4 nanos)
      (beInt 8 secs ++ beBytes 4 nanos) := by
    rw [← length]
    exact reads_exact_vec (by rw [length]; decide)
  have lenByte : Reads (readExactNat 1) [12] 12 := reads_exact_nat (n := 12) (by decide)
  have typeByte : Reads (readExactNat 1) [5] 5 := reads_exact_nat (n := 5) (by decide)
  have header : Reads (readMsgpTimeHeader 0xc7) ([12] ++ [5]) (12, 5) :=
    lenByte.bind typeByte.bind_pure
  have whole : Reads readMsgpTime
      ([0xc7] ++ ([12] ++ [5] ++ (beInt 8 secs ++ beBytes 4 nanos ++ []))) time :=
    (reads_byte Error.unexpected 0xc7).bind (header.bind (vector.bind payload))
  rwa [append_nil] at whole

end

/-- A decoder's match on the key: one row for each key it knows. -/
abbrev FieldTable (σ : Type) := List (String × (σ → Decode σ))

def decodeField {σ : Type} (table : FieldTable σ) (key : String) (state : σ) : Decode σ :=
  match table.lookup key with
  | some read => read state
  | none => do
      skipMsgpValue
      pure state

def decodeEntry {σ : Type} (readKey : Decode String) (table : FieldTable σ) (state : σ) :
    Decode σ := do
  let key ← readKey
  decodeField table key state

/-- `read_map_len`, then the `while fields > 0` loop from the default value. -/
def decodeMap {σ : Type} (readKey : Decode String) (table : FieldTable σ) (start : σ) :
    Decode σ := do
  let fields ← valueRead readMapLen
  ByteReader.iterate (decodeEntry readKey table) fields start

/-- The one-byte look-ahead of the optional bodies: nil is no body, any other
byte is handed back to the body's decoder. -/
def nilOr {α : Type} (decoder : Decode α) : Decode (Option α) := do
  let byte ← readByte .unexpected
  if byte = Marker.null.toU8 then pure none
  else
    modify fun input => byte :: input
    return some (← decoder)

def writeEntry (entry : String × Bytes) : Bytes := writeMsgpString entry.1 ++ entry.2

def readArrayOf {α : Type} (element : Decode α) : Decode (List α) := do
  let len ← valueRead readArrayLen
  ByteReader.repeated element len

def readNilOrArrayOf {α : Type} (element : Decode α) : Decode (List α) := do
  match ← readNilOrArrayLen with
  | none => pure []
  | some len => ByteReader.repeated element len

def readPair {V : Type} (value : Decode V) : Decode (String × V) := do
  let key ← readMsgpString
  return (key, ← value)

def readMapOf {V : Type} (value : Decode V) : Decode (KeyMap String V) := do
  let len ← valueRead readMapLen
  let entries ← ByteReader.repeated (readPair value) len
  pure (KeyMap.ofEntries entries)

def readNilOrMapOf {V : Type} (value : Decode V) : Decode (KeyMap String V) := do
  match ← readNilOrMapLen with
  | none => pure KeyMap.empty
  | some len =>
    let entries ← ByteReader.repeated (readPair value) len
    pure (KeyMap.ofEntries entries)

def writeArrayOf {α : Type} (encode : α → Bytes) (items : List α) : Bytes :=
  writeArrayLen (asU32 items.length) ++ items.flatMap encode

def writePair {V : Type} (encode : V → Bytes) (entry : String × V) : Bytes :=
  writeMsgpString entry.1 ++ encode entry.2

/-- The entries follow the walk of the hash map. -/
def writeMapOf {V : Type} (walk : Walk) (encode : V → Bytes) (map : KeyMap String V) : Bytes :=
  writeMapLen (asU32 map.entries.length) ++ (walk.enumerate map.entries).flatMap (writePair encode)

def uuidFromBytes (bytes : Bytes) : Uuid := BitVec.ofNat 128 (beNat bytes)

def uuidBytes (id : Uuid) : Bytes := beBytes 16 id.toNat

/-- The length of the binary is read and ignored; sixteen bytes are taken. -/
def readUuid : Decode (Option Uuid) := do
  let _ ← valueRead readBinLen
  let bytes ← ByteReader.take .unexpected 16
  let id := uuidFromBytes bytes
  pure (if id.isNil then none else some id)

def writeUuid (id : Option Uuid) : Bytes := writeBin (uuidBytes (id.getD Uuid.nil))

def timeFromNanos (nanos : Int) : Decode OffsetDateTime :=
  match OffsetDateTime.fromUnixTimestampNanos nanos with
  | some time => pure time
  | none => throw (.timeComponentRange nanos)

def readModTime : Decode (Option OffsetDateTime) := do
  let nanos ← readI64
  let time ← timeFromNanos nanos.toInt
  pure (if time = OffsetDateTime.unixEpoch then none else some time)

/-- `unix_timestamp_nanos() as i64`, with the epoch for an absent time. -/
def nanosAsI64 (time : Option OffsetDateTime) : Int64 :=
  Int64.ofInt (time.getD OffsetDateTime.unixEpoch).unixTimestampNanos

def writeModTime (time : Option OffsetDateTime) : Bytes := writeSint (nanosAsI64 time).toInt

/-- Reading an id back identifies the nil id with an absent one. -/
def normalId (id : Option Uuid) : Option Uuid := id.filter fun id => !id.isNil

/-- Reading a time back identifies the epoch with an absent one. -/
def normalTime (time : Option OffsetDateTime) : Option OffsetDateTime :=
  time.filter fun time => time ≠ OffsetDateTime.unixEpoch

def timeFits (time : Option OffsetDateTime) : Prop :=
  ∀ instant, time = some instant →
    minI64 ≤ instant.unixTimestampNanos ∧ instant.unixTimestampNanos ≤ maxI64

instance (time : Option OffsetDateTime) : Decidable (timeFits time) :=
  inferInstanceAs (Decidable (∀ instant ∈ time,
    minI64 ≤ instant.unixTimestampNanos ∧ instant.unixTimestampNanos ≤ maxI64))

theorem uuid_from_bytes_bytes (id : Uuid) : uuidFromBytes (uuidBytes id) = id := by
  have fits : id.toNat < 256 ^ 16 := by
    have bounded := id.isLt
    exact bounded
  rw [uuidFromBytes, uuidBytes, be_nat_be_bytes fits, BitVec.ofNat_toNat, BitVec.setWidth_eq]

theorem reads_uuid (id : Option Uuid) : Reads readUuid (writeUuid id) (normalId id) := by
  have length : (uuidBytes (id.getD Uuid.nil)).length = 16 := be_bytes_length 16 _
  have taken : Reads readUuid (writeUuid id)
      (if (uuidFromBytes (uuidBytes (id.getD Uuid.nil))).isNil then none
        else some (uuidFromBytes (uuidBytes (id.getD Uuid.nil)))) := by
    rw [writeUuid, writeBin, length, as_u32_eq (by decide)]
    exact ((reads_bin_len (by decide)).map_error _).bind
      (Reads.take_of_length Error.unexpected length).bind_pure
  rw [uuid_from_bytes_bytes] at taken
  cases id with
  | none => exact taken
  | some id =>
    rw [normalId, Option.filter_some]
    cases nil : id.isNil <;> simpa [nil] using taken

theorem normal_time_eq (time : Option OffsetDateTime) :
    (if time.getD OffsetDateTime.unixEpoch = OffsetDateTime.unixEpoch then none
      else some (time.getD OffsetDateTime.unixEpoch)) = normalTime time := by
  cases time with
  | none => rfl
  | some given =>
    rw [normalTime, Option.filter_some]
    by_cases epoch : given = OffsetDateTime.unixEpoch <;> simp [epoch]

variable {time : Option OffsetDateTime} {α : Type} {element : Decode α} {encode : α → Bytes}
  {items : List α} {bytes : Bytes} {len : Nat} {V : Type} {walk : Walk} {σ : Type}
  {table : FieldTable σ} {key : String} {entries : List (String × Bytes)} {holds : α → Prop}

theorem reads_time_nanos (fits : timeFits time) :
    Reads (timeFromNanos (nanosAsI64 time).toInt) [] (time.getD OffsetDateTime.unixEpoch) := by
  have bounded : minI64 ≤ (time.getD OffsetDateTime.unixEpoch).unixTimestampNanos ∧
      (time.getD OffsetDateTime.unixEpoch).unixTimestampNanos ≤ maxI64 := by
    cases time with
    | none => decide
    | some given => exact fits given rfl
  rw [nanosAsI64, Int64.toInt_ofInt_of_le bounded.1 (Int.lt_of_le_sub_one bounded.2),
    timeFromNanos, OffsetDateTime.fromUnixTimestampNanos, dif_pos (OffsetDateTime.inRange _)]
  exact Reads.pure _

theorem reads_mod_time (fits : timeFits time) :
    Reads readModTime (writeModTime time) (normalTime time) := by
  have whole : Reads readModTime (writeModTime time ++ [])
      (if time.getD OffsetDateTime.unixEpoch = OffsetDateTime.unixEpoch then none
        else some (time.getD OffsetDateTime.unixEpoch)) :=
    (reads_sint_i64 (nanosAsI64 time)).bind (reads_time_nanos fits).bind_pure
  rwa [append_nil, normal_time_eq] at whole

theorem reads_array_of
    (fits : items.length < 2 ^ 32) (each : ∀ item ∈ items, Reads element (encode item) item) :
    Reads (readArrayOf element) (writeArrayOf encode items) items := by
  rw [writeArrayOf, as_u32_eq fits]
  have elements := Reads.repeated_map encode id items each
  rw [map_id] at elements
  exact ((reads_array_len fits).map_error _).bind elements

theorem reads_after_byte {branch : UInt8 → Decode α} {value : α}
    (marker : Marker) (reads : Reads (branch marker.toU8) bytes value) :
    Reads (readByte Error.unexpected >>= branch) (marker.toU8 :: bytes) value :=
  (reads_byte Error.unexpected marker.toU8).bind reads

theorem reads_nil_or_array_len (fits : len < 2 ^ 32) :
    Reads readNilOrArrayLen (writeArrayLen len) (some len) := by
  unfold writeArrayLen
  split
  · apply reads_after_byte (.fixArray _)
    rw [Marker.from_u8_to_u8]
    exact Reads.pure _
  split
  · apply reads_after_byte .array16
    exact (reads_exact_nat (by omega)).bind_pure
  · apply reads_after_byte .array32
    exact (reads_exact_nat (by omega)).bind_pure

theorem reads_nil_or_map_len (fits : len < 2 ^ 32) :
    Reads readNilOrMapLen (writeMapLen len) (some len) := by
  unfold writeMapLen
  split
  · apply reads_after_byte (.fixMap _)
    rw [Marker.from_u8_to_u8]
    exact Reads.pure _
  split
  · apply reads_after_byte .map16
    exact (reads_exact_nat (by omega)).bind_pure
  · apply reads_after_byte .map32
    exact (reads_exact_nat (by omega)).bind_pure

def writeNilOrArrayOf {α : Type} (encode : α → Bytes) (items : List α) : Bytes :=
  if items.isEmpty then writeNil else writeArrayOf encode items

def writeNilOrMapOf {V : Type} (walk : Walk) (encode : V → Bytes) (map : KeyMap String V) :
    Bytes :=
  if map.isEmpty then writeNil else writeMapOf walk encode map

theorem reads_nil_or_array_of (fits : items.length < 2 ^ 32)
    (each : ∀ item ∈ items, Reads element (encode item) item) :
    Reads (readNilOrArrayOf element) (writeNilOrArrayOf encode items) items := by
  unfold writeNilOrArrayOf
  split
  case isTrue empty =>
    rw [List.isEmpty_iff.1 empty]
    intro rest
    rfl
  case isFalse =>
    rw [writeArrayOf, as_u32_eq fits]
    have elements := Reads.repeated_map encode id items each
    rw [map_id] at elements
    exact (reads_nil_or_array_len fits).bind elements

theorem reads_pairs {value : Decode V} {encode : V → Bytes} {map : KeyMap String V}
    (keys : ∀ entry ∈ map.entries, (utf8 entry.1).length ≤ maxMsgpElementSize)
    (each : ∀ entry ∈ map.entries, Reads value (encode entry.2) entry.2) :
    Reads (do
        let entries ← ByteReader.repeated (readPair value) map.entries.length
        pure (KeyMap.ofEntries entries))
      ((walk.enumerate map.entries).flatMap (writePair encode)) map := by
  have onePair : ∀ entry ∈ walk.enumerate map.entries,
      Reads (readPair value) (writePair encode entry) entry := by
    intro entry member
    have inMap := walk.mem_enumerate.1 member
    exact (reads_msgp_string (keys entry inMap)).bind (each entry inMap).bind_pure
  have pairs := Reads.repeated_map (writePair encode) id _ onePair
  rw [map_id, Walk.length_enumerate] at pairs
  have rebuilt : Reads (do
        let entries ← ByteReader.repeated (readPair value) map.entries.length
        pure (KeyMap.ofEntries entries)) _ (KeyMap.ofEntries (walk.enumerate map.entries)) :=
    pairs.bind_pure
  rwa [KeyMap.of_entries_perm (walk.perm _)] at rebuilt

section

variable {value : Decode V} {encode : V → Bytes} {map : KeyMap String V}
  (fits : map.entries.length < 2 ^ 32)
  (keys : ∀ entry ∈ map.entries, (utf8 entry.1).length ≤ maxMsgpElementSize)
  (each : ∀ entry ∈ map.entries, Reads value (encode entry.2) entry.2)

include fits keys each

theorem reads_map_of : Reads (readMapOf value) (writeMapOf walk encode map) map := by
  rw [writeMapOf, as_u32_eq fits]
  exact ((reads_map_len fits).map_error _).bind (reads_pairs keys each)

theorem reads_nil_or_map_of :
    Reads (readNilOrMapOf value) (writeNilOrMapOf walk encode map) map := by
  unfold writeNilOrMapOf
  split
  case isTrue empty =>
    have vacant : map = KeyMap.empty := by
      apply KeyMap.ext_mem
      simp [KeyMap.empty, List.isEmpty_iff.1 empty]
    rw [vacant]
    intro rest
    rfl
  case isFalse =>
    rw [writeMapOf, as_u32_eq fits]
    exact (reads_nil_or_map_len fits).bind (reads_pairs keys each)

end

/-- A field of a map: its key and the byte strings that encode its value. -/
abbrev Field := String × (Bytes → Prop)

/-- The entries of a map under a decoder that knows the keys `known`. -/
inductive Entries (known : List String) : List Field → List (String × Bytes) → Prop
  | done : Entries known [] []
  | field {key : String} {encodes : Bytes → Prop} {value : Bytes} {fields : List Field}
      {entries : List (String × Bytes)} (encoded : encodes value)
      (rest : Entries known fields entries) :
      Entries known ((key, encodes) :: fields) ((key, value) :: entries)
  | unknown {key : String} {value : Bytes} {fields : List Field} {entries : List (String × Bytes)}
      (foreign : key ∉ known) (short : (utf8 key).length ≤ maxMsgpElementSize)
      (complete : IsValue value) (rest : Entries known fields entries) :
      Entries known fields ((key, value) :: entries)

def EncodesMap (known : List String) (fields : List Field) (bytes : Bytes) : Prop :=
  ∃ entries, Entries known fields entries ∧ entries.length < 2 ^ 32 ∧
    bytes = writeMapLen entries.length ++ entries.flatMap writeEntry

/-- The rows of a table take the fields one by one from one state to another. -/
inductive Decodes {σ : Type} (table : FieldTable σ) : List Field → σ → σ → Prop
  | done (state : σ) : Decodes table [] state state
  | field {key : String} {encodes : Bytes → Prop} {fields : List Field} {state next final : σ}
      (short : (utf8 key).length ≤ maxMsgpElementSize)
      (reads : ∀ value, encodes value → Reads (decodeField table key state) value next)
      (rest : Decodes table fields next final) :
      Decodes table ((key, encodes) :: fields) state final

def FieldTable.keys {σ : Type} (table : FieldTable σ) : List String := table.map Prod.fst

theorem decode_field_unknown (foreign : key ∉ table.keys) (state : σ) :
    decodeField table key state = (do skipMsgpValue; pure state) := by
  have absent : table.lookup key = none := by
    apply lookup_eq_none_iff.2
    intro row member
    apply bne_iff_ne.2
    intro same
    exact foreign (mem_map.2 ⟨row, member, same.symm⟩)
  rw [decodeField, absent]

theorem reads_unknown {value : Bytes}
    (foreign : key ∉ table.keys) (complete : IsValue value) (state : σ) :
    Reads (decodeField table key state) value state := by
  rw [decode_field_unknown foreign]
  exact (reads_skip_msgp_value complete).bind_pure

variable {fields : List Field}

theorem steps_of_entries (encoded : Entries table.keys fields entries)
    {state final : σ} (decodes : Decodes table fields state final) :
    Steps (decodeEntry readMsgpString table) (entries.map writeEntry) state final := by
  induction encoded generalizing state with
  | done =>
    cases decodes
    exact .done _
  | field encoded _ ih =>
    cases decodes with
    | field short reads rest =>
      exact .step ((reads_msgp_string short).bind (reads _ encoded)) (ih rest)
  | unknown foreign short complete _ ih =>
    exact .step ((reads_msgp_string short).bind (reads_unknown foreign complete state))
      (ih decodes)

theorem reads_fields (encoded : EncodesMap table.keys fields bytes) {start final : σ}
    (decodes : Decodes table fields start final) :
    Reads (decodeMap readMsgpString table start) bytes final := by
  obtain ⟨entries, layout, fits, rfl⟩ := encoded
  have loop := Reads.iterate (steps_of_entries layout decodes)
  rw [length_map, ← flatMap_def] at loop
  exact ((reads_map_len fits).map_error _).bind loop

/-- The byte strings equal to one encoding. -/
def exactly (bytes : Bytes) : Bytes → Prop := fun value => value = bytes

theorem entries_of_forall₂ (known : List String)
    (each : List.Forall₂ (fun field entry => field.1 = entry.1 ∧ field.2 entry.2) fields entries) :
    Entries known fields entries := by
  induction each with
  | nil => exact .done
  | @cons field entry _ _ encoded _ ih =>
    obtain ⟨name, value⟩ := entry
    obtain ⟨rfl, valid⟩ := encoded
    exact .field valid ih

theorem yields_fields {readKey : Decode String}
    {invariant : σ → Prop} {start : σ} (initial : invariant start)
    (each : ∀ row ∈ table, ∀ state, invariant state → Yields (row.2 state) invariant) :
    Yields (decodeMap readKey table start) invariant := by
  apply Yields.bind_any
  intro fields
  apply Yields.iterate _ fields start initial
  intro state holds
  apply Yields.bind_any
  intro key
  rw [decodeField]
  cases found : table.lookup key with
  | none =>
    apply Yields.bind_any
    intro _
    exact Yields.pure holds
  | some read =>
    obtain ⟨before, after, split, -⟩ := lookup_eq_some_iff.1 found
    exact each (key, read) (by rw [split]; simp) state holds

theorem yields_exact_vec (len : Nat) :
    Yields (readExactVec len) fun bytes => bytes.length ≤ maxMsgpElementSize := by
  unfold readExactVec
  split
  case isTrue => exact Yields.throw
  case isFalse short =>
    refine (Yields.take _ len).mono ?_
    intro bytes length
    rw [length]
    exact Nat.le_of_not_lt short

theorem yields_msgp_bin : Yields readMsgpBin fun bytes => bytes.length ≤ maxMsgpElementSize :=
  Yields.bind_any fun len => yields_exact_vec len

theorem yields_msgp_string :
    Yields readMsgpString fun text => (utf8 text).length ≤ maxMsgpElementSize := by
  apply Yields.bind_any
  intro len
  refine Yields.bind (yields_exact_vec len) ?_
  intro bytes short
  rw [decodeUtf8]
  cases decoded : stringFromUtf8 bytes with
  | none => exact Yields.throw
  | some text =>
    apply Yields.pure
    rwa [utf8_from_utf8 decoded]

theorem yields_array_of (each : Yields element holds) :
    Yields (readArrayOf element) fun items =>
      items.length < 2 ^ 32 ∧ ∀ item ∈ items, holds item := by
  refine Yields.bind (yields_array_len.map_error _) ?_
  intro len fits
  refine (Yields.repeated each len).mono ?_
  rintro items ⟨length, all⟩
  exact ⟨length ▸ fits, all⟩

theorem yields_exact_nat {width : Nat} (narrow : width ≤ 4) :
    Yields (readExactNat width) fun n => n < 2 ^ 32 := by
  refine Yields.bind (Yields.take _ width) ?_
  intro bytes length
  apply Yields.pure
  have below := be_nat_lt bytes
  rw [length] at below
  exact below.trans_le (Nat.pow_le_pow_right (by decide) narrow)

theorem yields_nil_or_array_len :
    Yields readNilOrArrayLen fun result => ∀ len, result = some len → len < 2 ^ 32 := by
  apply Yields.bind_any
  intro byte
  cases Marker.fromU8 byte with
  | null => exact Yields.pure (by simp)
  | fixArray len => exact Yields.pure (by simp; omega)
  | array16 => exact Yields.bind (yields_exact_nat (by decide)) fun n below =>
    Yields.pure (by simpa using below)
  | array32 => exact Yields.bind (yields_exact_nat (by decide)) fun n below =>
    Yields.pure (by simpa using below)
  | _ => exact Yields.throw

theorem yields_nil_or_map_len :
    Yields readNilOrMapLen fun result => ∀ len, result = some len → len < 2 ^ 32 := by
  apply Yields.bind_any
  intro byte
  cases Marker.fromU8 byte with
  | null => exact Yields.pure (by simp)
  | fixMap len => exact Yields.pure (by simp; omega)
  | map16 => exact Yields.bind (yields_exact_nat (by decide)) fun n below =>
    Yields.pure (by simpa using below)
  | map32 => exact Yields.bind (yields_exact_nat (by decide)) fun n below =>
    Yields.pure (by simpa using below)
  | _ => exact Yields.throw

theorem yields_nil_or_array_of (each : Yields element holds) :
    Yields (readNilOrArrayOf element) fun items =>
      items.length < 2 ^ 32 ∧ ∀ item ∈ items, holds item := by
  refine Yields.bind yields_nil_or_array_len ?_
  intro result fits
  cases result with
  | none => exact Yields.pure ⟨by simp, by simp⟩
  | some len =>
    refine (Yields.repeated each len).mono ?_
    rintro items ⟨length, all⟩
    exact ⟨length ▸ fits len rfl, all⟩

/-- A map the codec can carry: its size fits the length field, its keys are
elements, and its values satisfy `holds`. -/
def MapFits {V : Type} (holds : V → Prop) (map : KeyMap String V) : Prop :=
  map.entries.length < 2 ^ 32 ∧
    ∀ entry ∈ map.entries, (utf8 entry.1).length ≤ maxMsgpElementSize ∧ holds entry.2

section

variable {value : Decode V} {holds : V → Prop} (each : Yields value holds)

include each

theorem yields_pairs (fits : len < 2 ^ 32) :
    Yields (do
      let entries ← ByteReader.repeated (readPair value) len
      pure (KeyMap.ofEntries entries)) (MapFits holds) := by
  have pair : Yields (readPair value) fun entry =>
      (utf8 entry.1).length ≤ maxMsgpElementSize ∧ holds entry.2 :=
    Yields.bind yields_msgp_string fun key short =>
      Yields.bind each fun value holds => Yields.pure ⟨short, holds⟩
  refine Yields.bind (Yields.repeated pair len) ?_
  rintro entries ⟨length, all⟩
  apply Yields.pure
  refine ⟨?_, fun entry member => all entry (KeyMap.mem_of_entries member)⟩
  have bound := KeyMap.of_entries_length_le entries
  omega

theorem yields_map_of : Yields (readMapOf value) (MapFits holds) :=
  Yields.bind (yields_map_len.map_error _) fun _ fits => yields_pairs each fits

theorem yields_nil_or_map_of : Yields (readNilOrMapOf value) (MapFits holds) := by
  refine Yields.bind yields_nil_or_map_len ?_
  intro result fits
  cases result with
  | none => exact Yields.pure ⟨by simp [KeyMap.empty], by simp [KeyMap.empty]⟩
  | some len => exact yields_pairs each (fits len rfl)

end

theorem yields_uuid : Yields readUuid fun id => normalId id = id := by
  apply Yields.bind_any
  intro _
  apply Yields.bind_any
  intro bytes
  apply Yields.pure
  split
  case isTrue => rfl
  case isFalse notNil => simp [normalId, notNil]

theorem yields_mod_time : Yields readModTime fun time => timeFits time ∧ normalTime time = time := by
  apply Yields.bind_any
  intro nanos
  have instant : Yields (timeFromNanos nanos.toInt) fun time =>
      time.unixTimestampNanos = nanos.toInt := by
    unfold timeFromNanos OffsetDateTime.fromUnixTimestampNanos
    split
    case h_1 time found =>
      split at found <;> cases found
      exact Yields.pure rfl
    case h_2 => exact Yields.throw
  refine Yields.bind instant ?_
  intro time same
  apply Yields.pure
  split
  case isTrue => exact ⟨by simp [timeFits], rfl⟩
  case isFalse notEpoch =>
    refine ⟨?_, by simp [normalTime, notEpoch]⟩
    intro other equal
    cases equal
    rw [same]
    exact ⟨nanos.le_toInt, Int.le_sub_one_of_lt nanos.toInt_lt⟩

end Rustfs.Filemeta
