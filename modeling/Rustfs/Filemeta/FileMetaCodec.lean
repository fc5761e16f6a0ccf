import Rustfs.Filemeta.MsgpMap

/-!
# The codec of `xl.meta` files

The inline data section is what follows the checksum of the file: a version byte and a map from
inline keys to payloads. It is kept as the raw bytes; `replace` and `remove_key` are the
operations of the version paths that rewrite it. Capacity hints are left out.

`FileMeta::load` and `marshal_msg` of `filemeta/src/filemeta/codec.rs`: a file header, the
metadata block with its checksum, and in it the headers and bodies of the versions. Headers of
three versions are read and the newest is written. The checksum is any fixed function.
-/

namespace Rustfs.Filemeta

open Library Library.MessagePack List
open Library.ByteReader (Reader Reads Yields run_bind_ok run_bind_eq_ok)

abbrev InlineData := Bytes

namespace InlineData

def inlineDataVer : UInt8 := 1

def versionOk (self : InlineData) : Bool :=
  match self with
  | [] => true
  | version :: _ => 0 < version && version ≤ inlineDataVer

def afterVersion (self : InlineData) : Bytes := self.drop 1

def readKey : Decode String := do
  let len ← valueRead readStrLen
  let field ← readExactVec len
  decodeUtf8 field

def readValue : Decode Bytes := do
  let len ← valueRead readBinLen
  ByteReader.take (.other "InlineData value out of range") len

def validateEntry : Decode Unit := do
  let field ← readKey
  if field.isEmpty then throw (.other "InlineData key empty")
  else
    let _ ← readValue
    pure ()

def validateEntries : Decode Unit := do
  let fields ← valueRead readMapLen
  ByteReader.iterate (fun _ => validateEntry) fields ()

/-- The version byte is not looked at, and bytes behind the map are accepted. -/
def validate (self : InlineData) : Except Error Unit :=
  if self.isEmpty then .ok ()
  else (validateEntries.run self.afterVersion).map Prod.fst

def entries (self : InlineData) : Except Error Nat :=
  if self.isEmpty || !self.versionOk then .ok 0
  else ((valueRead readMapLen).run self.afterVersion).map Prod.fst

def serialize (fields : List (String × Bytes)) : InlineData :=
  if fields.isEmpty then []
  else inlineDataVer :: (writeMapLen (asU32 fields.length) ++
    fields.flatMap fun field => writeMsgpString field.1 ++ writeBin field.2)

def readEntries : Decode (List (String × Bytes)) := do
  let fields ← valueRead readMapLen
  ByteReader.repeated (do
    let key ← readKey
    return (key, ← readValue)) fields

/-- Every entry of the key gets the new value; without one it is appended. -/
def replaceEntries (key : String) (value : Bytes) (fields : List (String × Bytes)) :
    List (String × Bytes) :=
  if fields.any fun field => field.1 = key then
    fields.map fun field => if field.1 = key then (key, value) else field
  else fields ++ [(key, value)]

def replace (self : InlineData) (key : String) (value : Bytes) : Except Error InlineData :=
  if self.afterVersion.isEmpty then .ok (serialize [(key, value)])
  else
    match readEntries.run self.afterVersion with
    | .ok (fields, _) => .ok (serialize (replaceEntries key value fields))
    | .error error => .error error

def findLoop (key : String) : (fields : Nat) → Decode (Option Bytes)
  | 0 => pure none
  | fields + 1 => do
      let field ← readKey
      let value ← readValue
      if field = key then pure (some value) else findLoop key fields

/-- The value of the first entry of the key; nothing behind it is read. -/
def find (self : InlineData) (key : String) : Except Error (Option Bytes) :=
  if self.isEmpty || !self.versionOk then .ok none
  else
    let search : Decode (Option Bytes) := do
      let fields ← valueRead readMapLen
      findLoop key fields
    (search.run self.afterVersion).map Prod.fst

def containsLoop (key : Bytes) : (fields : Nat) → Decode Bool
  | 0 => pure false
  | fields + 1 => do
      let len ← valueRead readStrLen
      let field ← ByteReader.take (.other "InlineData key out of range") len
      let _ ← readValue
      if field = key then pure true else containsLoop key fields

def containsKey (self : InlineData) (key : Bytes) : Except Error Bool :=
  if self.afterVersion.isEmpty then .ok false
  else
    let search : Decode Bool := do
      let fields ← valueRead readMapLen
      containsLoop key fields
    (search.run self.afterVersion).map Prod.fst

/-- The entries of the keys that stay, and whether a key to remove was met. -/
def removeLoop (shouldRemove : Bytes → Bool) : (fields : Nat) → Decode (Bool × List (String × Bytes))
  | 0 => pure (false, [])
  | fields + 1 => do
      let len ← valueRead readStrLen
      let field ← readExactVec len
      let value ← readValue
      if shouldRemove field then
        let (_, kept) ← removeLoop shouldRemove fields
        pure (true, kept)
      else
        let name ← decodeUtf8 field
        let (found, kept) ← removeLoop shouldRemove fields
        pure (found, (name, value) :: kept)

def removeKeysBy (self : InlineData) (shouldRemove : Bytes → Bool) :
    Except Error (Bool × InlineData) :=
  if self.afterVersion.isEmpty then .ok (false, self)
  else
    let split : Decode (Bool × List (String × Bytes)) := do
      let fields ← valueRead readMapLen
      removeLoop shouldRemove fields
    (split.run self.afterVersion).map fun result =>
      if result.1.1 then (true, serialize result.1.2) else (false, self)

def removeKey (self : InlineData) (key : String) : Except Error (Bool × InlineData) :=
  match self.containsKey (utf8 key) with
  | .error error => .error error
  | .ok false => .ok (false, self)
  | .ok true => self.removeKeysBy fun candidate => candidate = utf8 key

end InlineData

/-- `xxh64` with its fixed seed. -/
abbrev Hash := Bytes → UInt64

structure FileMeta where
  versions : List FileMetaShallowVersion
  data : InlineData
  metaVer : UInt8
  deriving DecidableEq

def FileMeta.default : FileMeta := ⟨[], [], 0⟩

def xlFileHeader : Bytes := [0x58, 0x4c, 0x32, 0x20]
def xlFileVersionMajor : Nat := 1
def xlHeaderVersion : Nat := 3
def xlMetaVersion : Nat := 3

def signatureBytes (signature : BitVec 32) : Bytes := beBytes 4 signature.toNat

def FileMetaVersionHeader.marshalMsg (self : FileMetaVersionHeader) : Bytes :=
  writeArrayLen 7 ++
  writeBin (uuidBytes (self.versionId.getD Uuid.nil)) ++
  writeI64 (nanosAsI64 self.modTime).toInt ++
  writeBin (signatureBytes self.signature) ++
  writeUint self.versionType.toU8.toNat ++
  writeUint self.flags.toNat ++
  writeUint self.ecN.toNat ++
  writeUint self.ecM.toNat

/-- `read_int::<u8, _>`. -/
def readU8 : Decode UInt8 := do
  let value ← numRead (readInt 0 255)
  pure (UInt8.ofNat value.toNat)

def readHeaderLen (expected : Nat) : Decode Unit := do
  let alen ← valueRead readArrayLen
  if alen ≠ expected then
    throw (.other ("version header array len err need " ++ toString expected ++ " got " ++
      toString alen))
  else pure ()

/-- The binary's length is read and ignored. -/
def readHeaderId : Decode (Option Uuid) := do
  let _ ← valueRead readBinLen
  let bytes ← ByteReader.take .unexpected 16
  pure (some (uuidFromBytes bytes))

def minI128 : Int := -2 ^ 127

def maxI128 : Int := 2 ^ 127 - 1

def readHeaderTime : Decode (Option OffsetDateTime) := do
  let unix ← numRead (readInt minI128 maxI128)
  let time ← timeFromNanos unix
  pure (if time = OffsetDateTime.unixEpoch then none else some time)

def readSignature : Decode (BitVec 32) := do
  let _ ← valueRead readBinLen
  let bytes ← ByteReader.take .unexpected 4
  pure (BitVec.ofNat 32 (beNat bytes))

namespace FileMetaVersionHeader

def readV1 : Decode FileMetaVersionHeader := do
  readHeaderLen 4
  let versionId ← readHeaderId
  let modTime ← readHeaderTime
  let type ← readU8
  let flags ← readU8
  pure { FileMetaVersionHeader.default with
    versionId := versionId, modTime := modTime, versionType := .fromU8 type, flags := flags }

def readV2 : Decode FileMetaVersionHeader := do
  readHeaderLen 5
  let versionId ← readHeaderId
  let modTime ← readHeaderTime
  let signature ← readSignature
  let type ← readU8
  let flags ← readU8
  pure { FileMetaVersionHeader.default with
    versionId := versionId, modTime := modTime, signature := signature,
    versionType := .fromU8 type, flags := flags }

def readV3 : Decode FileMetaVersionHeader := do
  readHeaderLen 7
  let versionId ← readHeaderId
  let modTime ← readHeaderTime
  let signature ← readSignature
  let type ← readU8
  let flags ← readU8
  let ecN ← readU8
  let ecM ← readU8
  pure
    { versionId := versionId
      modTime := modTime
      signature := signature
      versionType := .fromU8 type
      flags := flags
      ecN := ecN
      ecM := ecM }

def unmarshalV (version : UInt8) (bytes : Bytes) : Except Error FileMetaVersionHeader :=
  let decoder : Decode FileMetaVersionHeader :=
    if version = 1 then readV1
    else if version = 2 then readV2
    else if version = 3 then readV3
    else throw (.other ("unknown xl header version: " ++ toString version.toNat))
  (decoder.run bytes).map Prod.fst

end FileMetaVersionHeader

def ReadError.message : ReadError → String
  | .invalidMarkerRead => "failed to read MessagePack marker"
  | .invalidDataRead => "failed to read MessagePack data"
  | .typeMismatch _ => "the type decoded isn't match with the expected one"
  | .outOfRange => "out of range integral type conversion attempted"

/-- `read_bin_len` on the cursor and the bytes of the segment; `what` names the
segment in the error texts. -/
def readSegment (what : String) : Decode Bytes := do
  let len ← ByteReader.mapError
    (fun error => .other ("failed to read binary length for version " ++ what ++ ": " ++
      ReadError.message error)) readBinLen
  ByteReader.take
    (.other ("corrupt xl.meta: version " ++ what ++ " length exceeds metadata size")) len

def liftExcept {α : Type} (result : Except Error α) : Decode α := fun input =>
  match result with
  | .ok value => .ok (value, input)
  | .error error => .error error

def readShallowVersion (headerVer : UInt8) : Decode FileMetaShallowVersion := do
  let headerBuf ← readSegment "header"
  let header ← liftExcept (FileMetaVersionHeader.unmarshalV headerVer headerBuf)
  let metaBuf ← readSegment "metadata"
  pure ⟨header, metaBuf⟩

def usizeLimit : Int := 2 ^ 64 - 1

def decodeXlHeaders : Decode (Nat × UInt8 × UInt8) := do
  let headerVer ← readU8
  if xlHeaderVersion < headerVer.toNat then throw (.other "xl header version invalid")
  else
    let metaVer ← readU8
    if xlMetaVersion < metaVer.toNat then throw (.other "xl meta version invalid")
    else
      let versionsLen ← numRead (readInt 0 usizeLimit)
      pure (versionsLen.toNat, headerVer, metaVer)

/-- A count above the number of bytes left is refused before anything is read. -/
def checkVersionsLen (versionsLen : Nat) : Decode Unit := fun input =>
  if input.length < versionsLen then
    .error (.other ("corrupt xl.meta: version count " ++ toString versionsLen ++
      " exceeds metadata size " ++ toString input.length))
  else .ok ((), input)

def readVersions : Decode (UInt8 × List FileMetaShallowVersion) := do
  let (versionsLen, headerVer, metaVer) ← decodeXlHeaders
  checkVersionsLen versionsLen
  let versions ← ByteReader.repeated (readShallowVersion headerVer) versionsLen
  pure (metaVer, versions)

def leNat (bytes : Bytes) : Nat := beNat bytes.reverse

def checkXl2V1 (buf : Bytes) : Except Error (Bytes × Nat × Nat) :=
  if buf.length < 8 then .error .fileCorrupt
  else if buf.take 4 ≠ xlFileHeader then .error .fileCorrupt
  else
    let major := leNat ((buf.drop 4).take 2)
    let minor := leNat ((buf.drop 6).take 2)
    if xlFileVersionMajor < major then .error (.other "xl file version err")
    else .ok (buf.drop 8, major, minor)

/-- The first five bytes, read by `read`; any failure is `FileCorrupt`. -/
def readFrame (read : Reader ReadError Nat) (buf : Bytes) : Except Error (Nat × Bytes) :=
  if buf.length < 5 then .error .fileCorrupt
  else
    match read.run (buf.take 5) with
    | .ok (value, _) => .ok (value, buf.drop 5)
    | .error _ => .error .fileCorrupt

def loadMeta (metaBytes : Bytes) (data : InlineData) : Except Error FileMeta :=
  if metaBytes.isEmpty then .ok { FileMeta.default with data := data }
  else
    match readVersions.run metaBytes with
    | .ok ((metaVer, versions), _) => .ok ⟨versions, data, metaVer⟩
    | .error error => .error error

/-- `xxh64(meta, seed) as u32`. -/
def metaCrc (hash : Hash) (metaBytes : Bytes) : Nat := (hash metaBytes).toNat % 2 ^ 32

def loadBlock (hash : Hash) (metaBytes rest : Bytes) : Except Error FileMeta := do
  let (crc, data) ← readFrame readU32 rest
  if crc ≠ metaCrc hash metaBytes then .error .fileCorrupt
  else
    InlineData.validate data
    loadMeta metaBytes data

def loadFrames (hash : Hash) (buf : Bytes) : Except Error FileMeta :=
  match readFrame readBinLen buf with
  | .error error => .error error
  | .ok (binLen, buf) =>
    if buf.length < binLen then .error .fileCorrupt
    else loadBlock hash (buf.take binLen) (buf.drop binLen)

/-- `FileMeta::load`: `unmarshal_msg` into a default value. -/
def FileMeta.load (hash : Hash) (buf : Bytes) : Except Error FileMeta :=
  match checkXl2V1 buf with
  | .error error => .error error
  | .ok (buf, _, _) => loadFrames hash buf

def FileMetaShallowVersion.segments (self : FileMetaShallowVersion) : Bytes :=
  writeBin self.header.marshalMsg ++ writeBin self.metaBytes

/-- The metadata block: everything between the length field and the checksum. -/
def FileMeta.metaBlock (self : FileMeta) : Bytes :=
  writeUint xlHeaderVersion ++ writeUint xlMetaVersion ++
  writeSint (Int64.ofNat self.versions.length).toInt ++
  self.versions.flatMap FileMetaShallowVersion.segments

def FileMeta.marshalMsg (hash : Hash) (self : FileMeta) : Bytes :=
  xlFileHeader ++ [1, 0] ++ [3, 0] ++
  (Marker.bin32.toU8 :: beBytes 4 (asU32 self.metaBlock.length)) ++ self.metaBlock ++
  (Marker.u32.toU8 :: beBytes 4 (metaCrc hash self.metaBlock)) ++ self.data

def FileMetaVersionHeader.reloaded (self : FileMetaVersionHeader) : FileMetaVersionHeader :=
  { self with
    versionId := some (self.versionId.getD Uuid.nil)
    modTime := normalTime self.modTime }

def FileMetaShallowVersion.reloaded (self : FileMetaShallowVersion) : FileMetaShallowVersion :=
  { self with header := self.header.reloaded }

def FileMeta.reloaded (self : FileMeta) : FileMeta :=
  ⟨self.versions.map FileMetaShallowVersion.reloaded, self.data, 3⟩

theorem reads_u8 (value : UInt8) : Reads readU8 (writeUint value.toNat) value := by
  have bounded := value.toNat_lt
  have integer : Reads readInteger (writeUint value.toNat) (value.toNat : Int) :=
    reads_uint (by omega)
  have ranged : Reads (readInt 0 255) (writeUint value.toNat) (value.toNat : Int) :=
    reads_int integer (by omega) (by omega)
  have result : Reads readU8 (writeUint value.toNat) (UInt8.ofNat (value.toNat : Int).toNat) :=
    (ranged.map_error _).bind_pure
  rwa [Int.toNat_natCast, UInt8.ofNat_toNat] at result

theorem reads_header_id (id : Option Uuid) :
    Reads readHeaderId (writeBin (uuidBytes (id.getD Uuid.nil))) (some (id.getD Uuid.nil)) := by
  have length : (uuidBytes (id.getD Uuid.nil)).length = 16 := be_bytes_length 16 _
  have result : Reads readHeaderId (writeBin (uuidBytes (id.getD Uuid.nil)))
      (some (uuidFromBytes (uuidBytes (id.getD Uuid.nil)))) := by
    rw [writeBin, length, as_u32_eq (by decide)]
    exact ((reads_bin_len (by decide)).map_error _).bind
      (Reads.take_of_length Error.unexpected length).bind_pure
  rwa [uuid_from_bytes_bytes] at result

theorem reads_header_time {time : Option OffsetDateTime} (fits : timeFits time) :
    Reads readHeaderTime (writeI64 (nanosAsI64 time).toInt) (normalTime time) := by
  have integer := reads_i64 (nanosAsI64 time).le_toInt (nanosAsI64 time).toInt_lt
  have lower := (nanosAsI64 time).le_toInt
  have upper := (nanosAsI64 time).toInt_lt
  have ranged : Reads (readInt minI128 maxI128) (writeI64 (nanosAsI64 time).toInt)
      (nanosAsI64 time).toInt :=
    reads_int integer (by rw [minI128]; omega) (by rw [maxI128]; omega)
  have read := reads_time_nanos fits
  have whole : Reads readHeaderTime (writeI64 (nanosAsI64 time).toInt ++ [])
      (if time.getD OffsetDateTime.unixEpoch = OffsetDateTime.unixEpoch then none
        else some (time.getD OffsetDateTime.unixEpoch)) :=
    (ranged.map_error _).bind read.bind_pure
  rwa [normal_time_eq] at whole

theorem reads_signature (signature : BitVec 32) :
    Reads readSignature (writeBin (signatureBytes signature)) signature := by
  have length : (signatureBytes signature).length = 4 := be_bytes_length 4 _
  have back : BitVec.ofNat 32 (beNat (signatureBytes signature)) = signature := by
    rw [signatureBytes, be_nat_be_bytes signature.isLt, BitVec.ofNat_toNat, BitVec.setWidth_eq]
  have result : Reads readSignature (writeBin (signatureBytes signature))
      (BitVec.ofNat 32 (beNat (signatureBytes signature))) := by
    rw [writeBin, length, as_u32_eq (by decide)]
    exact ((reads_bin_len (by decide)).map_error _).bind
      (Reads.take_of_length Error.unexpected length).bind_pure
  rwa [back] at result

theorem reads_header_len {len : Nat} (small : len < 16) :
    Reads (readHeaderLen len) (writeArrayLen len) () := by
  have checked : Reads (if len ≠ len then
      throw (.other ("version header array len err need " ++ toString len ++ " got " ++
        toString len)) else pure () : Decode Unit) [] () := by
    rw [if_neg (by simp)]
    exact Reads.pure ()
  have whole : Reads (readHeaderLen len) (writeArrayLen len ++ []) () :=
    ((reads_array_len (by omega)).map_error _).bind checked
  rwa [append_nil] at whole

variable {header : FileMetaVersionHeader} {bytes : Bytes} {version : FileMetaShallowVersion}
  {fm : FileMeta} {hash : Hash} {data : InlineData} {metaBytes : Bytes}

theorem reads_header (fits : timeFits header.modTime) :
    Reads FileMetaVersionHeader.readV3 header.marshalMsg header.reloaded := by
  have typed := reads_u8 header.versionType.toU8
  have whole : Reads FileMetaVersionHeader.readV3 _
      { header.reloaded with versionType := .fromU8 header.versionType.toU8 } :=
    (reads_header_len (by decide)).bind ((reads_header_id header.versionId).bind
      ((reads_header_time fits).bind ((reads_signature header.signature).bind
        (typed.bind ((reads_u8 header.flags).bind ((reads_u8 header.ecN).bind
          (reads_u8 header.ecM).bind_pure))))))
  rw [VersionType.from_u8_to_u8] at whole
  change Reads _ _ header.reloaded at whole
  simpa only [FileMetaVersionHeader.marshalMsg, append_assoc] using whole

theorem uint_length_le (value : Nat) : (writeUint value).length ≤ 9 := by
  unfold writeUint
  repeat' split
  all_goals simp

theorem header_length_lt (header : FileMetaVersionHeader) : header.marshalMsg.length < 2 ^ 32 := by
  have typeLen := uint_length_le header.versionType.toU8.toNat
  have flagsLen := uint_length_le header.flags.toNat
  have ecNLen := uint_length_le header.ecN.toNat
  have ecMLen := uint_length_le header.ecM.toNat
  simp only [FileMetaVersionHeader.marshalMsg, length_append, writeBin, writeI64, uuidBytes,
    signatureBytes, be_bytes_length, beInt, length_cons, as_u32_eq (show 16 < 2 ^ 32 by decide),
    as_u32_eq (show 4 < 2 ^ 32 by decide)]
  have arrayLen : (writeArrayLen 7).length = 1 := by decide
  have idLen : (writeBinLen 16).length = 2 := by decide
  have sigLen : (writeBinLen 4).length = 2 := by decide
  omega

theorem unmarshal_marshal (fits : timeFits header.modTime) :
    FileMetaVersionHeader.unmarshalV 3 header.marshalMsg = .ok header.reloaded := by
  have read := reads_header fits []
  rw [append_nil] at read
  change (FileMetaVersionHeader.readV3.run header.marshalMsg).map Prod.fst = _
  rw [read]
  rfl

theorem reads_segment (what : String) (short : bytes.length < 2 ^ 32) :
    Reads (readSegment what) (writeBin bytes) bytes := by
  rw [writeBin, as_u32_eq short]
  exact ((reads_bin_len short).map_error _).bind (Reads.take _ bytes)

theorem reads_lift {α : Type} {result : Except Error α} {value : α} (ok : result = .ok value) :
    Reads (liftExcept result) [] value := by
  intro rest
  rw [ok]
  rfl

theorem reads_shallow_version
    (fits : timeFits version.header.modTime) (short : version.metaBytes.length < 2 ^ 32) :
    Reads (readShallowVersion 3) version.segments version.reloaded :=
  (reads_segment "header" (header_length_lt version.header)).bind
    ((reads_lift (unmarshal_marshal fits)).bind (reads_segment "metadata" short).bind_pure)

theorem bin_len_pos (len : Nat) : 0 < (writeBinLen len).length := by
  unfold writeBinLen
  repeat' split
  all_goals simp

theorem length_le_segments (versions : List FileMetaShallowVersion) :
    versions.length ≤ (versions.flatMap FileMetaShallowVersion.segments).length := by
  induction versions with
  | nil => simp
  | cons version rest ih =>
    have nonempty : 0 < version.segments.length := by
      have frame := bin_len_pos (asU32 version.header.marshalMsg.length)
      simp only [FileMetaShallowVersion.segments, writeBin, length_append]
      omega
    rw [flatMap_cons, length_append, length_cons]
    omega

theorem meta_bytes_le_segments
    {versions : List FileMetaShallowVersion} (member : version ∈ versions) :
    version.metaBytes.length ≤ (versions.flatMap FileMetaShallowVersion.segments).length := by
  have inside : version.segments.length ≤
      (versions.flatMap FileMetaShallowVersion.segments).length := by
    exact (sublist_flatten_of_mem (mem_map_of_mem member)).length_le
  simp only [FileMetaShallowVersion.segments, writeBin, length_append] at inside
  omega

theorem reads_xl_headers {count : Nat} (small : count < 2 ^ 63) :
    Reads decodeXlHeaders
      (writeUint xlHeaderVersion ++ (writeUint xlMetaVersion ++
        writeSint (Int64.ofNat count).toInt)) (count, 3, 3) := by
  have signed : (Int64.ofNat count).toInt = count := Int64.toInt_ofNat_of_lt small
  have integer : Reads readInteger (writeSint (Int64.ofNat count).toInt) (count : Int) := by
    rw [signed]
    exact reads_sint (by omega) (by omega)
  have counted : Reads (readInt 0 usizeLimit) (writeSint (Int64.ofNat count).toInt) (count : Int) :=
    reads_int integer (by omega) (by rw [usizeLimit]; omega)
  have result : Reads decodeXlHeaders _ ((count : Int).toNat, 3, 3) :=
    (reads_u8 3).bind ((reads_u8 3).bind (counted.map_error _).bind_pure)
  rwa [Int.toNat_natCast] at result

theorem run_versions (times : ∀ version ∈ fm.versions, timeFits version.header.modTime)
    (short : fm.metaBlock.length < 2 ^ 32) :
    readVersions.run fm.metaBlock =
      .ok ((3, fm.versions.map FileMetaShallowVersion.reloaded), []) := by
  obtain ⟨segments, listed⟩ : ∃ segments,
      segments = fm.versions.flatMap FileMetaShallowVersion.segments := ⟨_, rfl⟩
  have segmentsShort : segments.length < 2 ^ 32 := by
    rw [FileMeta.metaBlock, length_append, ← listed] at short
    omega
  have count := length_le_segments fm.versions
  rw [← listed] at count
  have headers := reads_xl_headers (show fm.versions.length < 2 ^ 63 by omega) segments
  have versions := Reads.repeated_map FileMetaShallowVersion.segments
    FileMetaShallowVersion.reloaded fm.versions (fun version member =>
      reads_shallow_version (times version member)
        (lt_of_le_of_lt (listed ▸ meta_bytes_le_segments member) segmentsShort)) []
  rw [append_nil, ← listed] at versions
  have block : fm.metaBlock = writeUint xlHeaderVersion ++ (writeUint xlMetaVersion ++
      writeSint (Int64.ofNat fm.versions.length).toInt) ++ segments := by
    simp only [FileMeta.metaBlock, append_assoc, listed]
  have checked : (checkVersionsLen fm.versions.length).run segments = .ok ((), segments) := by
    change (if segments.length < fm.versions.length then _ else _) = _
    rw [if_neg (by omega)]
  rw [readVersions, block, run_bind_ok headers]
  rw [run_bind_ok checked, run_bind_ok versions]
  rfl

theorem check_xl2_v1_marshalled (rest : Bytes) :
    checkXl2V1 (xlFileHeader ++ [1, 0] ++ [3, 0] ++ rest) = .ok (rest, 1, 3) := by
  simp [checkXl2V1, xlFileHeader, leNat, beNat, xlFileVersionMajor]

theorem read_frame_of_reads {read : Reader ReadError Nat} {frame rest : Bytes} {value : Nat}
    (length : frame.length = 5) (reads : Reads read frame value) :
    readFrame read (frame ++ rest) = .ok (value, rest) := by
  have enough : ¬ (frame ++ rest).length < 5 := by
    rw [length_append]
    omega
  have accepted := reads []
  rw [append_nil] at accepted
  rw [readFrame, if_neg enough, take_left' length, drop_left' length, accepted]

theorem meta_crc_lt (hash : Hash) (metaBytes : Bytes) : metaCrc hash metaBytes < 2 ^ 32 :=
  Nat.mod_lt _ (by decide)

theorem load_block_marshalled (valid : InlineData.validate data = .ok ()) :
    loadBlock hash metaBytes
      ((Marker.u32.toU8 :: beBytes 4 (metaCrc hash metaBytes)) ++ data) =
        loadMeta metaBytes data := by
  have frame : readFrame readU32 ((Marker.u32.toU8 :: beBytes 4 (metaCrc hash metaBytes)) ++ data) =
      .ok (metaCrc hash metaBytes, data) :=
    read_frame_of_reads (by simp) (reads_u32 (meta_crc_lt hash metaBytes))
  rw [loadBlock, frame]
  simp only [bind, Except.bind, ne_eq, not_true_eq_false, if_false, valid]

theorem load_frames_marshalled {block rest : Bytes} (short : block.length < 2 ^ 32) :
    loadFrames hash ((Marker.bin32.toU8 :: beBytes 4 block.length) ++ (block ++ rest)) =
      loadBlock hash block rest := by
  have frame : readFrame readBinLen
      ((Marker.bin32.toU8 :: beBytes 4 block.length) ++ (block ++ rest)) =
        .ok (block.length, block ++ rest) :=
    read_frame_of_reads (by simp) (reads_after_marker .bin32 (reads_data (by omega)))
  have enough : ¬ (block ++ rest).length < block.length := by
    rw [length_append]
    omega
  rw [loadFrames, frame]
  change (if (block ++ rest).length < block.length then _ else _) = _
  rw [if_neg enough, take_left, drop_left]

/-- A file whose metadata block is `block`, as `marshal_msg` frames it. -/
def framed (hash : Hash) (block : Bytes) (data : InlineData) : Bytes :=
  xlFileHeader ++ [1, 0] ++ [3, 0] ++
    ((Marker.bin32.toU8 :: beBytes 4 block.length) ++
      (block ++ ((Marker.u32.toU8 :: beBytes 4 (metaCrc hash block)) ++ data)))

theorem load_framed {block : Bytes} (short : block.length < 2 ^ 32) :
    FileMeta.load hash (framed hash block data) =
      loadBlock hash block ((Marker.u32.toU8 :: beBytes 4 (metaCrc hash block)) ++ data) := by
  rw [FileMeta.load, framed, check_xl2_v1_marshalled]
  change loadFrames hash _ = _
  rw [load_frames_marshalled short]

theorem marshal_framed (short : fm.metaBlock.length < 2 ^ 32) :
    fm.marshalMsg hash = framed hash fm.metaBlock fm.data := by
  simp only [FileMeta.marshalMsg, framed, as_u32_eq short, append_assoc]

theorem load_marshal (times : ∀ version ∈ fm.versions, timeFits version.header.modTime)
    (short : fm.metaBlock.length < 2 ^ 32) (valid : InlineData.validate fm.data = .ok ()) :
    FileMeta.load hash (fm.marshalMsg hash) = .ok fm.reloaded := by
  have nonempty : fm.metaBlock.isEmpty = false := by
    simp [FileMeta.metaBlock, xlHeaderVersion, writeUint]
  rw [marshal_framed short, load_framed short, load_block_marshalled valid, loadMeta, nonempty,
    run_versions times short]
  rfl

def FileMetaVersionHeader.Loaded (header : FileMetaVersionHeader) : Prop :=
  header.reloaded = header

theorem yields_header_id : Yields readHeaderId fun id => id.isSome :=
  Yields.bind_any fun _ => Yields.bind_any fun _ => Yields.pure rfl

theorem yields_header_time : Yields readHeaderTime fun time => normalTime time = time := by
  apply Yields.bind_any
  intro unix
  apply Yields.bind_any
  intro time
  apply Yields.pure
  split
  case isTrue => rfl
  case isFalse notEpoch => simp [normalTime, notEpoch]

theorem loaded_of_normal (id : header.versionId.isSome)
    (time : normalTime header.modTime = header.modTime) : header.Loaded := by
  obtain ⟨given, present⟩ := Option.isSome_iff_exists.1 id
  rw [FileMetaVersionHeader.Loaded, FileMetaVersionHeader.reloaded, time, present]
  cases header
  cases present
  rfl

theorem yields_read_v1 : Yields FileMetaVersionHeader.readV1 FileMetaVersionHeader.Loaded :=
  Yields.bind_any fun _ => yields_header_id.bind fun _ id => yields_header_time.bind fun _ time =>
    Yields.bind_any fun _ => Yields.bind_any fun _ => Yields.pure (loaded_of_normal id time)

theorem yields_read_v2 : Yields FileMetaVersionHeader.readV2 FileMetaVersionHeader.Loaded :=
  Yields.bind_any fun _ => yields_header_id.bind fun _ id => yields_header_time.bind fun _ time =>
    Yields.bind_any fun _ => Yields.bind_any fun _ => Yields.bind_any fun _ =>
      Yields.pure (loaded_of_normal id time)

theorem yields_read_v3 : Yields FileMetaVersionHeader.readV3 FileMetaVersionHeader.Loaded :=
  Yields.bind_any fun _ => yields_header_id.bind fun _ id => yields_header_time.bind fun _ time =>
    Yields.bind_any fun _ => Yields.bind_any fun _ => Yields.bind_any fun _ =>
      Yields.bind_any fun _ => Yields.bind_any fun _ => Yields.pure (loaded_of_normal id time)

theorem unmarshal_v_loaded {version : UInt8}
    (decoded : FileMetaVersionHeader.unmarshalV version bytes = .ok header) : header.Loaded := by
  have yields : ∀ decoder : Decode FileMetaVersionHeader,
      Yields decoder FileMetaVersionHeader.Loaded →
      (decoder.run bytes).map Prod.fst = .ok header → header.Loaded := by
    intro decoder each ran
    cases result : decoder.run bytes with
    | error error =>
      rw [result] at ran
      cases ran
    | ok read =>
      rw [result] at ran
      cases ran
      exact each bytes read.1 read.2 result
  apply yields _ _ decoded
  split
  · exact yields_read_v1
  split
  · exact yields_read_v2
  split
  · exact yields_read_v3
  · exact Yields.throw

theorem yields_lift {α : Type} {result : Except Error α} {holds : α → Prop}
    (each : ∀ value, result = .ok value → holds value) : Yields (liftExcept result) holds := by
  intro input value rest done
  cases result with
  | error error => cases done
  | ok given =>
    cases done
    exact each _ rfl

theorem yields_versions : Yields readVersions fun result =>
    ∀ version ∈ result.2, version.header.Loaded := by
  have one : ∀ headerVer, Yields (readShallowVersion headerVer) fun version =>
      version.header.Loaded := by
    intro headerVer
    apply Yields.bind_any
    intro headerBuf
    refine Yields.bind (yields_lift fun header decoded => unmarshal_v_loaded decoded) ?_
    intro header loaded
    exact Yields.bind_any fun _ => Yields.pure loaded
  apply Yields.bind_any
  intro counts
  apply Yields.bind_any
  intro _
  refine Yields.bind (Yields.repeated (one _) _) ?_
  intro versions each
  exact Yields.pure each.2

/-- Everything a loaded file guarantees: valid inline data and headers that
loading leaves alone. -/
theorem load_ok {buf : Bytes} (loaded : FileMeta.load hash buf = .ok fm) :
    InlineData.validate fm.data = .ok () ∧ ∀ version ∈ fm.versions, version.header.Loaded := by
  have ofMeta : ∀ metaBytes data, InlineData.validate data = .ok () →
      loadMeta metaBytes data = .ok fm →
        InlineData.validate fm.data = .ok () ∧ ∀ version ∈ fm.versions, version.header.Loaded := by
    intro metaBytes data valid parsed
    rw [loadMeta] at parsed
    split at parsed
    case isTrue =>
      cases parsed
      exact ⟨valid, by simp [FileMeta.default]⟩
    case isFalse =>
      cases ran : readVersions.run metaBytes with
      | error error =>
        rw [ran] at parsed
        cases parsed
      | ok result =>
        rw [ran] at parsed
        cases parsed
        exact ⟨valid, yields_versions metaBytes result.1 result.2 ran⟩
  have ofBlock : ∀ metaBytes rest, loadBlock hash metaBytes rest = .ok fm →
      InlineData.validate fm.data = .ok () ∧ ∀ version ∈ fm.versions, version.header.Loaded := by
    intro metaBytes rest parsed
    rw [loadBlock] at parsed
    cases framed : readFrame readU32 rest with
    | error error =>
      rw [framed] at parsed
      cases parsed
    | ok frame =>
      rw [framed] at parsed
      simp only [bind, Except.bind] at parsed
      split at parsed
      · cases parsed
      · cases valid : InlineData.validate frame.2 with
        | error error =>
          rw [valid] at parsed
          cases parsed
        | ok checked =>
          rw [valid] at parsed
          exact ofMeta metaBytes frame.2 valid parsed
  rw [FileMeta.load] at loaded
  cases checked : checkXl2V1 buf with
  | error error =>
    rw [checked] at loaded
    cases loaded
  | ok body =>
    rw [checked] at loaded
    simp only [loadFrames] at loaded
    cases framed : readFrame readBinLen body.1 with
    | error error =>
      rw [framed] at loaded
      cases loaded
    | ok frame =>
      rw [framed] at loaded
      simp only at loaded
      split at loaded
      · cases loaded
      · exact ofBlock _ _ loaded

theorem load_block_rejects_data {error : Error}
    (invalid : InlineData.validate data = .error error) :
    loadBlock hash metaBytes
      ((Marker.u32.toU8 :: beBytes 4 (metaCrc hash metaBytes)) ++ data) = .error error := by
  have frame : readFrame readU32 ((Marker.u32.toU8 :: beBytes 4 (metaCrc hash metaBytes)) ++ data) =
      .ok (metaCrc hash metaBytes, data) :=
    read_frame_of_reads (by simp) (reads_u32 (meta_crc_lt hash metaBytes))
  rw [loadBlock, frame]
  simp only [bind, Except.bind, ne_eq, not_true_eq_false, if_false, invalid]

/-- A marshalled file loads to its normal form, and a loaded file survives being
marshalled and loaded again, except for its meta version. Inline data is loaded only if
it validates, so the first half asks for that. -/
theorem xl_meta_round_trip (hash : Hash) :
    (∀ fm : FileMeta, (∀ version ∈ fm.versions, timeFits version.header.modTime) →
      fm.metaBlock.length < 2 ^ 32 → InlineData.validate fm.data = .ok () →
        FileMeta.load hash (fm.marshalMsg hash) = .ok fm.reloaded) ∧
    ∀ (buf : Bytes) (fm : FileMeta), FileMeta.load hash buf = .ok fm →
      (∀ version ∈ fm.versions, timeFits version.header.modTime) →
      fm.metaBlock.length < 2 ^ 32 →
        FileMeta.load hash (fm.marshalMsg hash) = .ok { fm with metaVer := 3 } := by
  constructor
  · intro fm times short valid
    exact load_marshal times short valid
  · intro buf fm loaded times short
    obtain ⟨valid, headers⟩ := load_ok loaded
    rw [load_marshal times short valid, FileMeta.reloaded]
    have unchanged : fm.versions.map FileMetaShallowVersion.reloaded = fm.versions := by
      calc fm.versions.map FileMetaShallowVersion.reloaded
          = fm.versions.map id := by
            apply map_congr_left
            intro version member
            rw [FileMetaShallowVersion.reloaded, headers version member]
            rfl
        _ = fm.versions := map_id _
    rw [unchanged]

def sampleFile : FileMeta where
  versions := [
    { header :=
        { versionId := none
          modTime := some ⟨1, by decide⟩
          signature := 7
          versionType := .object
          flags := 0
          ecN := 4
          ecM := 2 }
      metaBytes := [1, 2, 3] }]
  data := InlineData.serialize [("null", [5])]
  metaVer := 2

theorem xl_meta_round_trip_sample :
    FileMeta.load (fun _ => 0) (sampleFile.marshalMsg fun _ => 0) = .ok sampleFile.reloaded ∧
    FileMeta.load (fun _ => 0) (sampleFile.reloaded.marshalMsg fun _ => 0) =
      .ok { sampleFile.reloaded with metaVer := 3 } := by
  have loaded := (xl_meta_round_trip fun _ => 0).1 sampleFile (by decide) (by decide) (by decide)
  exact ⟨loaded, (xl_meta_round_trip fun _ => 0).2 _ _ loaded (by decide) (by decide)⟩

/-- Inline data that does not validate makes the load fail, and a file of meta
version 2 comes back with meta version 3. -/
theorem xl_meta_round_trip_not_exact :
    (¬ ∃ hash : Hash, ∀ fm : FileMeta,
      (∀ version ∈ fm.versions, timeFits version.header.modTime) → fm.metaBlock.length < 2 ^ 32 →
        ∃ loaded, FileMeta.load hash (fm.marshalMsg hash) = .ok loaded) ∧
    ¬ ∃ hash : Hash, ∀ (buf : Bytes) (fm : FileMeta), FileMeta.load hash buf = .ok fm →
      FileMeta.load hash (fm.marshalMsg hash) = .ok fm := by
  constructor
  · intro ⟨hash, loads⟩
    obtain ⟨loaded, ok⟩ := loads ⟨[], [1], 3⟩ (by decide) (by decide)
    have invalid : InlineData.validate [1] =
        .error (.rmpDecodeValueRead .invalidMarkerRead) := by decide
    rw [marshal_framed (by decide), load_framed (by decide), load_block_rejects_data invalid] at ok
    cases ok
  · intro ⟨hash, same⟩
    have second : FileMeta.load hash (framed hash [3, 2, 0] []) = .ok ⟨[], [], 2⟩ := by
      rw [load_framed (by decide), load_block_marshalled rfl]
      rfl
    have kept := same _ _ second
    rw [load_marshal (by decide) (by decide) rfl] at kept
    cases kept

end Rustfs.Filemeta
