import Rustfs.Filemeta.MsgpMap

/-!
# Version bodies and their codec

The data of one version (`FileMetaVersion` with its object, delete-marker or
legacy body) and the hand-written MessagePack codec. A decoder is its table of
rows, one for each key the source matches on; an encoder writes the declared map
length and then its entries.
-/

namespace Rustfs.Filemeta

open Option Library Library.MessagePack Decodes
open Library.ByteReader (Reader Reads Yields)

inductive ErasureAlgo
  | invalid
  | reedSolomon
  deriving DecidableEq

namespace ErasureAlgo

def valid : ErasureAlgo → Bool
  | invalid => false
  | reedSolomon => true

def toU8 : ErasureAlgo → UInt8
  | invalid => 0
  | reedSolomon => 1

def fromU8 (n : UInt8) : ErasureAlgo := if n = 1 then reedSolomon else invalid

theorem of_to_u8 (algo : ErasureAlgo) : fromU8 algo.toU8 = algo := by
  cases algo <;> rfl

end ErasureAlgo

inductive ChecksumAlgo
  | invalid
  | highwayHash
  deriving DecidableEq

namespace ChecksumAlgo

def valid : ChecksumAlgo → Bool
  | invalid => false
  | highwayHash => true

def toU8 : ChecksumAlgo → UInt8
  | invalid => 0
  | highwayHash => 1

def fromU8 (n : UInt8) : ChecksumAlgo := if n = 1 then highwayHash else invalid

theorem of_to_u8 (algo : ChecksumAlgo) : fromU8 algo.toU8 = algo := by
  cases algo <;> rfl

end ChecksumAlgo

structure MetaObject where
  versionId : Option Uuid
  dataDir : Option Uuid
  erasureAlgorithm : ErasureAlgo
  erasureM : UInt64
  erasureN : UInt64
  erasureBlockSize : UInt64
  erasureIndex : UInt64
  erasureDist : List UInt8
  bitrotChecksumAlgo : ChecksumAlgo
  partNumbers : List UInt64
  partEtags : List String
  partSizes : List UInt64
  partActualSizes : List Int64
  partIndices : List Bytes
  size : Int64
  modTime : Option OffsetDateTime
  metaSys : KeyMap String Bytes
  metaUser : KeyMap String String
  deriving DecidableEq

def MetaObject.default : MetaObject where
  versionId := none
  dataDir := none
  erasureAlgorithm := .invalid
  erasureM := 0
  erasureN := 0
  erasureBlockSize := 0
  erasureIndex := 0
  erasureDist := []
  bitrotChecksumAlgo := .invalid
  partNumbers := []
  partEtags := []
  partSizes := []
  partActualSizes := []
  partIndices := []
  size := 0
  modTime := none
  metaSys := .empty
  metaUser := .empty

structure MetaDeleteMarker where
  versionId : Option Uuid
  modTime : Option OffsetDateTime
  metaSys : KeyMap String Bytes
  deriving DecidableEq

def MetaDeleteMarker.default : MetaDeleteMarker := ⟨none, none, .empty⟩

structure MetaObjectV1Stat where
  size : Int64
  modTime : Option OffsetDateTime
  name : String
  dir : Bool
  mode : UInt32
  deriving DecidableEq

def MetaObjectV1Stat.default : MetaObjectV1Stat := ⟨0, none, "", false, 0⟩

structure MetaObjectV1ChecksumInfo where
  partNumber : UInt64
  algorithm : String
  hash : Bytes
  deriving DecidableEq

def MetaObjectV1ChecksumInfo.default : MetaObjectV1ChecksumInfo := ⟨0, "", []⟩

structure MetaObjectV1Erasure where
  algorithm : String
  dataBlocks : UInt64
  parityBlocks : UInt64
  blockSize : UInt64
  index : UInt64
  distribution : List UInt64
  checksums : List MetaObjectV1ChecksumInfo
  deriving DecidableEq

def MetaObjectV1Erasure.default : MetaObjectV1Erasure := ⟨"", 0, 0, 0, 0, [], []⟩

structure MetaObjectV1Part where
  etag : String
  number : UInt64
  size : UInt64
  actualSize : Int64
  modTime : Option OffsetDateTime
  index : Option Bytes
  checksums : Option (KeyMap String String)
  error : Option String
  deriving DecidableEq

def MetaObjectV1Part.default : MetaObjectV1Part := ⟨"", 0, 0, 0, none, none, none, none⟩

structure MetaObjectV1 where
  version : String
  format : String
  stat : MetaObjectV1Stat
  erasure : MetaObjectV1Erasure
  metadata : KeyMap String String
  parts : List MetaObjectV1Part
  versionId : String
  dataDir : String
  deriving DecidableEq

def MetaObjectV1.default : MetaObjectV1 := ⟨"", "", .default, .default, .empty, [], "", ""⟩

structure FileMetaVersion where
  versionType : VersionType
  legacyObject : Option MetaObjectV1
  object : Option MetaObject
  deleteMarker : Option MetaDeleteMarker
  writeVersion : UInt64
  usesLegacyChecksum : Bool
  deriving DecidableEq

def FileMetaVersion.default : FileMetaVersion := ⟨.invalid, none, none, none, 0, false⟩

def encodeEntries (declared : Nat) (entries : List (String × Bytes)) : Bytes :=
  writeMapLen declared ++ entries.flatMap writeEntry

def optionalEntry {α : Type} (key : String) (encode : α → Bytes) (value : Option α) :
    List (String × Bytes) :=
  match value with
  | some value => [(key, encode value)]
  | none => []

def MetaObject.entries (walk : Walk) (self : MetaObject) : List (String × Bytes) :=
  [("ID", writeUuid self.versionId),
    ("DDir", writeUuid self.dataDir),
    ("EcAlgo", writeUint self.erasureAlgorithm.toU8.toNat),
    ("EcM", writeUsize self.erasureM),
    ("EcN", writeUsize self.erasureN),
    ("EcBSize", writeUsize self.erasureBlockSize),
    ("EcIndex", writeUsize self.erasureIndex),
    ("EcDist", writeArrayOf (fun v => writeUint v.toNat) self.erasureDist),
    ("CSumAlgo", writeUint self.bitrotChecksumAlgo.toU8.toNat),
    ("PartNums", writeArrayOf writeUsize self.partNumbers),
    ("PartETags", writeNilOrArrayOf writeMsgpString self.partEtags),
    ("PartSizes", writeArrayOf writeUsize self.partSizes),
    ("PartASizes", writeNilOrArrayOf (fun s => writeSint s.toInt) self.partActualSizes)] ++
  (if self.partIndices.isEmpty then []
    else [("PartIdx", writeArrayOf writeBin self.partIndices)]) ++
  [("Size", writeSint self.size.toInt),
    ("MTime", writeModTime self.modTime),
    ("MetaSys", writeNilOrMapOf walk writeBin self.metaSys),
    ("MetaUsr", writeNilOrMapOf walk writeMsgpString self.metaUser)]

def MetaObject.encodeTo (walk : Walk) (self : MetaObject) : Bytes :=
  encodeEntries (if self.partIndices.isEmpty then 17 else 18) (self.entries walk)

def MetaDeleteMarker.entries (walk : Walk) (self : MetaDeleteMarker) : List (String × Bytes) :=
  [("ID", writeUuid self.versionId),
    ("MTime", writeModTime self.modTime),
    ("MetaSys", writeMapOf walk writeBin self.metaSys)]

def MetaDeleteMarker.encodeTo (walk : Walk) (self : MetaDeleteMarker) : Bytes :=
  encodeEntries 3 (self.entries walk)

def MetaObjectV1Stat.entries (self : MetaObjectV1Stat) : List (String × Bytes) :=
  [("Size", writeSint self.size.toInt)] ++
  optionalEntry "ModTime" writeMsgpTime self.modTime ++
  [("Name", writeMsgpString self.name),
    ("Dir", writeBool self.dir),
    ("Mode", writeU32 self.mode.toNat)]

def MetaObjectV1Stat.encodeTo (self : MetaObjectV1Stat) : Bytes :=
  encodeEntries (if self.modTime.isSome then 5 else 4) self.entries

def MetaObjectV1ChecksumInfo.entries (self : MetaObjectV1ChecksumInfo) : List (String × Bytes) :=
  [("PartNumber", writeUsize self.partNumber),
    ("Algorithm", writeMsgpString self.algorithm),
    ("Hash", writeBin self.hash)]

def MetaObjectV1ChecksumInfo.encodeTo (self : MetaObjectV1ChecksumInfo) : Bytes :=
  encodeEntries 3 self.entries

def MetaObjectV1Erasure.entries (self : MetaObjectV1Erasure) : List (String × Bytes) :=
  [("Algorithm", writeMsgpString self.algorithm),
    ("DataBlocks", writeUsize self.dataBlocks),
    ("ParityBlocks", writeUsize self.parityBlocks),
    ("BlockSize", writeUsize self.blockSize),
    ("Index", writeUsize self.index),
    ("Distribution", writeArrayOf writeUsize self.distribution),
    ("Checksums", writeArrayOf MetaObjectV1ChecksumInfo.encodeTo self.checksums)]

def MetaObjectV1Erasure.encodeTo (self : MetaObjectV1Erasure) : Bytes :=
  encodeEntries 7 self.entries

def MetaObjectV1Part.entries (walk : Walk) (self : MetaObjectV1Part) : List (String × Bytes) :=
  [("e", writeMsgpString self.etag),
    ("n", writeUsize self.number),
    ("s", writeUsize self.size),
    ("as", writeSint self.actualSize.toInt)] ++
  optionalEntry "mt" writeMsgpTime self.modTime ++
  optionalEntry "i" writeBin self.index ++
  optionalEntry "crc" (writeMapOf walk writeMsgpString) self.checksums ++
  optionalEntry "err" writeMsgpString self.error

def MetaObjectV1Part.encodeTo (walk : Walk) (self : MetaObjectV1Part) : Bytes :=
  encodeEntries (4 + (if self.modTime.isSome then 1 else 0) + (if self.index.isSome then 1 else 0) +
    (if self.checksums.isSome then 1 else 0) + (if self.error.isSome then 1 else 0))
    (self.entries walk)

def MetaObjectV1.entries (walk : Walk) (self : MetaObjectV1) : List (String × Bytes) :=
  [("Version", writeMsgpString self.version),
    ("Format", writeMsgpString self.format),
    ("Stat", self.stat.encodeTo),
    ("Erasure", self.erasure.encodeTo),
    ("Meta", writeMapOf walk writeMsgpString self.metadata),
    ("Parts", writeArrayOf (MetaObjectV1Part.encodeTo walk) self.parts),
    ("VersionID", writeMsgpString self.versionId),
    ("DataDir", writeMsgpString self.dataDir)]

def MetaObjectV1.encodeTo (walk : Walk) (self : MetaObjectV1) : Bytes :=
  encodeEntries 8 (self.entries walk)

def FileMetaVersion.entries (walk : Walk) (self : FileMetaVersion) : List (String × Bytes) :=
  [("Type", writeUint self.versionType.toU8.toNat)] ++
  optionalEntry "V1Obj" (MetaObjectV1.encodeTo walk) self.legacyObject ++
  optionalEntry "V2Obj" (MetaObject.encodeTo walk) self.object ++
  optionalEntry "DelObj" (MetaDeleteMarker.encodeTo walk) self.deleteMarker ++
  [("v", writeUint self.writeVersion.toNat)]

def FileMetaVersion.encodeTo (walk : Walk) (self : FileMetaVersion) : Bytes :=
  encodeEntries (2 + (if self.legacyObject.isSome then 1 else 0) +
    (if self.object.isSome then 1 else 0) + (if self.deleteMarker.isSome then 1 else 0))
    (self.entries walk)

def row {σ α : Type} (key : String) (read : Decode α) (store : σ → α → σ) :
    String × (σ → Decode σ) :=
  (key, fun state => do
    let value ← read
    pure (store state value))

/-- `read_int::<i64, _>(rd)? as u8`. -/
def readAsU8 : Decode UInt8 := do
  let value ← readI64
  pure value.toUInt64.toUInt8

def readErasureAlgo : Decode ErasureAlgo := do
  let value ← readAsU8
  pure (.fromU8 value)

def readChecksumAlgo : Decode ChecksumAlgo := do
  let value ← readAsU8
  pure (.fromU8 value)

def readVersionType : Decode VersionType := do
  let value ← readAsU8
  pure (.fromU8 value)

def msgpObjectKeyStackCap : Nat := 16

/-- Short keys are read into a stack buffer, longer ones like any element. -/
def readObjectKey : Decode String := do
  let len ← valueRead readStrLen
  let buf ← if len ≤ msgpObjectKeyStackCap then ByteReader.take .unexpected len
    else readExactVec len
  decodeUtf8 buf

def MetaObject.table : FieldTable MetaObject :=
  [row "ID" readUuid fun self id => { self with versionId := id },
    row "DDir" readUuid fun self id => { self with dataDir := id },
    row "EcAlgo" readErasureAlgo fun self v => { self with erasureAlgorithm := v },
    row "EcM" readUsize fun self v => { self with erasureM := v },
    row "EcN" readUsize fun self v => { self with erasureN := v },
    row "EcBSize" readUsize fun self v => { self with erasureBlockSize := v },
    row "EcIndex" readUsize fun self v => { self with erasureIndex := v },
    row "EcDist" (readArrayOf readAsU8) fun self v => { self with erasureDist := v },
    row "CSumAlgo" readChecksumAlgo fun self v => { self with bitrotChecksumAlgo := v },
    row "PartNums" (readArrayOf readUsize) fun self v => { self with partNumbers := v },
    row "PartETags" (readNilOrArrayOf readMsgpString) fun self v => { self with partEtags := v },
    row "PartSizes" (readArrayOf readUsize) fun self v => { self with partSizes := v },
    row "PartASizes" (readNilOrArrayOf readI64) fun self v => { self with partActualSizes := v },
    row "PartIdx" (readArrayOf readMsgpBin) fun self v => { self with partIndices := v },
    row "Size" readI64 fun self v => { self with size := v },
    row "MTime" readModTime fun self time => { self with modTime := time },
    row "MetaSys" (readNilOrMapOf readMsgpBin) fun self v => { self with metaSys := v },
    row "MetaUsr" (readNilOrMapOf readMsgpString) fun self v => { self with metaUser := v }]

def MetaObject.decodeFrom : Decode MetaObject :=
  decodeMap readObjectKey MetaObject.table .default

def MetaDeleteMarker.table : FieldTable MetaDeleteMarker :=
  [row "ID" readUuid fun self id => { self with versionId := id },
    row "MTime" readModTime fun self time => { self with modTime := time },
    row "MetaSys" (readMapOf readMsgpBin) fun self v => { self with metaSys := v }]

def MetaDeleteMarker.decodeFrom : Decode MetaDeleteMarker :=
  decodeMap readMsgpString MetaDeleteMarker.table .default

/-- `Mode` is read with the strict `read_u32`. -/
def readMode : Decode UInt32 := do
  let value ← valueRead readU32
  pure (UInt32.ofNat value)

def MetaObjectV1Stat.table : FieldTable MetaObjectV1Stat :=
  [row "Size" readI64 fun self v => { self with size := v },
    row "ModTime" readMsgpTime fun self time => { self with modTime := some time },
    row "Name" readMsgpString fun self v => { self with name := v },
    row "Dir" (valueRead readBool) fun self v => { self with dir := v },
    row "Mode" readMode fun self v => { self with mode := v }]

def MetaObjectV1Stat.decodeFrom : Decode MetaObjectV1Stat :=
  decodeMap readMsgpString MetaObjectV1Stat.table .default

def MetaObjectV1ChecksumInfo.table : FieldTable MetaObjectV1ChecksumInfo :=
  [row "PartNumber" readUsize fun self v => { self with partNumber := v },
    row "Algorithm" readMsgpString fun self v => { self with algorithm := v },
    row "Hash" readMsgpBin fun self v => { self with hash := v }]

def MetaObjectV1ChecksumInfo.decodeFrom : Decode MetaObjectV1ChecksumInfo :=
  decodeMap readMsgpString MetaObjectV1ChecksumInfo.table .default

def MetaObjectV1Erasure.table : FieldTable MetaObjectV1Erasure :=
  [row "Algorithm" readMsgpString fun self v => { self with algorithm := v },
    row "DataBlocks" readUsize fun self v => { self with dataBlocks := v },
    row "ParityBlocks" readUsize fun self v => { self with parityBlocks := v },
    row "BlockSize" readUsize fun self v => { self with blockSize := v },
    row "Index" readUsize fun self v => { self with index := v },
    row "Distribution" (readArrayOf readUsize) fun self v => { self with distribution := v },
    row "Checksums" (readArrayOf MetaObjectV1ChecksumInfo.decodeFrom) fun self v =>
      { self with checksums := v }]

def MetaObjectV1Erasure.decodeFrom : Decode MetaObjectV1Erasure :=
  decodeMap readMsgpString MetaObjectV1Erasure.table .default

def MetaObjectV1Part.table : FieldTable MetaObjectV1Part :=
  [row "e" readMsgpString fun self v => { self with etag := v },
    row "n" readUsize fun self v => { self with number := v },
    row "s" readUsize fun self v => { self with size := v },
    row "as" readI64 fun self v => { self with actualSize := v },
    row "mt" readMsgpTime fun self time => { self with modTime := some time },
    row "i" readMsgpBin fun self v => { self with index := some v },
    row "crc" (readMapOf readMsgpString) fun self v => { self with checksums := some v },
    row "err" readMsgpString fun self v => { self with error := some v }]

def MetaObjectV1Part.decodeFrom : Decode MetaObjectV1Part :=
  decodeMap readMsgpString MetaObjectV1Part.table .default

def MetaObjectV1.table : FieldTable MetaObjectV1 :=
  [row "Version" readMsgpString fun self v => { self with version := v },
    row "Format" readMsgpString fun self v => { self with format := v },
    row "Stat" MetaObjectV1Stat.decodeFrom fun self v => { self with stat := v },
    row "Erasure" MetaObjectV1Erasure.decodeFrom fun self v => { self with erasure := v },
    row "Meta" (readMapOf readMsgpString) fun self v => { self with metadata := v },
    row "Parts" (readArrayOf MetaObjectV1Part.decodeFrom) fun self v => { self with parts := v },
    row "VersionID" readMsgpString fun self v => { self with versionId := v },
    row "DataDir" readMsgpString fun self v => { self with dataDir := v }]

def MetaObjectV1.decodeFrom : Decode MetaObjectV1 :=
  decodeMap readMsgpString MetaObjectV1.table .default

def readWriteVersion : Decode UInt64 := do
  let value ← readI64
  if value.toInt < 0 then throw (.other "negative write_version not supported")
  else pure value.toUInt64

def FileMetaVersion.table : FieldTable FileMetaVersion :=
  [row "Type" readVersionType fun self v => { self with versionType := v },
    row "V1Obj" (nilOr MetaObjectV1.decodeFrom) fun self v => { self with legacyObject := v },
    row "V2Obj" (nilOr MetaObject.decodeFrom) fun self v => { self with object := v },
    row "DelObj" (nilOr MetaDeleteMarker.decodeFrom) fun self v => { self with deleteMarker := v },
    row "v" readWriteVersion fun self v => { self with writeVersion := v }]

def FileMetaVersion.decodeFrom : Decode FileMetaVersion :=
  decodeMap readMsgpString FileMetaVersion.table .default

def FileMetaVersion.marshalMsg (walk : Walk) (self : FileMetaVersion) : Bytes :=
  self.encodeTo walk

/-- The decoded version; trailing bytes are not looked at. -/
def FileMetaVersion.unmarshalMsg (bytes : Bytes) : Except Error FileMetaVersion :=
  (FileMetaVersion.decodeFrom.run bytes).map Prod.fst

theorem read_object_key_eq : readObjectKey = readMsgpString := by
  funext input
  simp only [readObjectKey, readMsgpString, bind, StateT.bind]
  cases valueRead readStrLen input with
  | error error => rfl
  | ok result =>
    simp only [Except.bind]
    split
    case isTrue short =>
      have element : ¬ maxMsgpElementSize < result.1 := by
        rw [msgpObjectKeyStackCap] at short
        rw [maxMsgpElementSize]
        omega
      rw [readExactVec, if_neg element]
      rfl
    case isFalse => rfl

variable {bytes : Bytes} {walk : Walk} {self : MetaObject} {version : FileMetaVersion}

section

variable {σ α : Type} {table : FieldTable σ} {key : String} {read : Decode α} {store : σ → α → σ}
  (found : table.lookup key = some (row key read store).2) {value : α}

include found

theorem reads_row {state : σ} (reads : Reads read bytes value) :
    Reads (decodeField table key state) bytes (store state value) := by
  rw [decodeField, found]
  exact reads.bind_pure

theorem Decodes.exact {fields : List Field} {state final : σ}
    (short : (utf8 key).length ≤ maxMsgpElementSize) (reads : Reads read bytes value)
    (rest : Decodes table fields (store state value) final) :
    Decodes table ((key, exactly bytes) :: fields) state final := by
  apply field short _ rest
  rintro encoded rfl
  exact reads_row found reads

theorem Decodes.nested {encodes : Bytes → Prop} {fields : List Field} {state final : σ}
    (short : (utf8 key).length ≤ maxMsgpElementSize)
    (reads : ∀ bytes, encodes bytes → Reads read bytes value)
    (rest : Decodes table fields (store state value) final) :
    Decodes table ((key, encodes) :: fields) state final :=
  field short (fun bytes encoded => reads_row found (reads bytes encoded)) rest

end

variable {σ α : Type} {key : String} {encode : α → Bytes} {items : List α} {decoder read : Decode α}

theorem Decodes.same {table : FieldTable σ} {state final : σ} (same : state = final) :
    Decodes table [] state final :=
  same ▸ .done state

theorem Decodes.append {table : FieldTable σ} {front back : List Field}
    {state final : σ} (middle : σ) (first : Decodes table front state middle)
    (second : Decodes table back middle final) : Decodes table (front ++ back) state final := by
  induction first with
  | done => exact second
  | field short reads _ ih => exact .field short reads (ih second)

def optionalField {α : Type} (key : String) (encodes : α → Bytes → Prop) (value : Option α) :
    List Field :=
  match value with
  | some value => [(key, encodes value)]
  | none => []

theorem Decodes.optional {β : Type} {table : FieldTable σ} {read : Decode β}
    {store : σ → β → σ} {encodes : α → Bytes → Prop} {value : Option α} {decoded : α → β}
    {state final : σ} (found : table.lookup key = some (row key read store).2)
    (short : (utf8 key).length ≤ maxMsgpElementSize)
    (reads : ∀ item, value = some item → ∀ bytes, encodes item bytes →
      Reads read bytes (decoded item))
    (present : ∀ item, value = some item → store state (decoded item) = final)
    (absent : value = none → state = final) :
    Decodes table (optionalField key encodes value) state final := by
  cases value with
  | none =>
    rw [absent rfl]
    exact .done _
  | some item =>
    apply nested found short (reads item rfl)
    rw [present item rfl]
    exact .done _

def exactFields (entries : List (String × Bytes)) : List Field :=
  entries.map fun entry => (entry.1, exactly entry.2)

theorem exact_fields_nil : exactFields [] = [] := rfl

theorem exact_fields_cons (key : String) (bytes : Bytes) (entries : List (String × Bytes)) :
    exactFields ((key, bytes) :: entries) = (key, exactly bytes) :: exactFields entries := rfl

theorem exact_fields_append (front back : List (String × Bytes)) :
    exactFields (front ++ back) = exactFields front ++ exactFields back :=
  List.map_append

theorem encodes_entries (known : List String) {fields : List Field}
    {entries : List (String × Bytes)} {declared : Nat} (counted : declared = entries.length)
    (fits : entries.length < 2 ^ 32)
    (each : List.Forall₂ (fun field entry => field.1 = entry.1 ∧ field.2 entry.2) fields entries) :
    EncodesMap known fields (encodeEntries declared entries) :=
  ⟨entries, entries_of_forall₂ known each, fits, by rw [encodeEntries, counted]⟩

theorem exact_fields_each (entries : List (String × Bytes)) :
    List.Forall₂ (fun (field : Field) entry => field.1 = entry.1 ∧ field.2 entry.2)
      (exactFields entries) entries := by
  rw [exactFields, List.forall₂_map_left_iff, List.forall₂_same]
  exact fun entry _ => ⟨rfl, rfl⟩

def EncodesArray {α : Type} (encodes : α → Bytes → Prop) (items : List α) (bytes : Bytes) : Prop :=
  ∃ pieces, List.Forall₂ encodes items pieces ∧
    bytes = writeArrayLen (asU32 items.length) ++ pieces.flatten

theorem encodes_array_write {encodes : α → Bytes → Prop}
    (each : ∀ item ∈ items, encodes item (encode item)) :
    EncodesArray encodes items (writeArrayOf encode items) := by
  refine ⟨items.map encode, ?_, by rw [writeArrayOf, List.flatMap_def]⟩
  rw [List.forall₂_map_right_iff, List.forall₂_same]
  exact each

theorem reads_encoded_array {element : Decode α} {encodes : α → Bytes → Prop}
    (fits : items.length < 2 ^ 32)
    (each : ∀ item ∈ items, ∀ piece, encodes item piece → Reads element piece item)
    (encoded : EncodesArray encodes items bytes) : Reads (readArrayOf element) bytes items := by
  obtain ⟨pieces, valid, rfl⟩ := encoded
  rw [as_u32_eq fits]
  have elements : List.Forall₂ (fun item piece => Reads element piece (id item)) items pieces := by
    clear fits
    induction valid with
    | nil => exact .nil
    | @cons item piece items pieces first _ ih =>
      exact .cons (each item List.mem_cons_self piece first)
        (ih fun other member => each other (List.mem_cons_of_mem _ member))
  have listed := Reads.repeated elements
  rw [List.map_id] at listed
  exact ((reads_array_len fits).map_error _).bind listed

theorem reads_as_u8 (value : UInt8) : Reads readAsU8 (writeUint value.toNat) value := by
  have bounded := value.toNat_lt
  have read : Reads readAsU8 (writeUint value.toNat)
      (Int64.ofInt value.toNat).toUInt64.toUInt8 :=
    (reads_uint_i64 (by omega)).bind_pure
  have same : (Int64.ofInt value.toNat).toUInt64.toUInt8 = value := by
    rw [show Int64.ofInt (value.toNat : Int) = Int64.ofNat value.toNat from rfl,
      Int64.toUInt64_ofNat']
    simp
  rwa [same] at read

theorem reads_erasure_algo (algo : ErasureAlgo) :
    Reads readErasureAlgo (writeUint algo.toU8.toNat) algo := by
  have read : Reads readErasureAlgo (writeUint algo.toU8.toNat) (.fromU8 algo.toU8) :=
    (reads_as_u8 algo.toU8).bind_pure
  rwa [ErasureAlgo.of_to_u8] at read

theorem reads_checksum_algo (algo : ChecksumAlgo) :
    Reads readChecksumAlgo (writeUint algo.toU8.toNat) algo := by
  have read : Reads readChecksumAlgo (writeUint algo.toU8.toNat) (.fromU8 algo.toU8) :=
    (reads_as_u8 algo.toU8).bind_pure
  rwa [ChecksumAlgo.of_to_u8] at read

theorem reads_version_type (type : VersionType) :
    Reads readVersionType (writeUint type.toU8.toNat) type := by
  have read : Reads readVersionType (writeUint type.toU8.toNat) (.fromU8 type.toU8) :=
    (reads_as_u8 type.toU8).bind_pure
  rwa [VersionType.from_u8_to_u8] at read

theorem reads_mode (mode : UInt32) : Reads readMode (writeU32 mode.toNat) mode := by
  have read : Reads readMode (writeU32 mode.toNat) (UInt32.ofNat mode.toNat) :=
    ((reads_u32 mode.toNat_lt).map_error _).bind_pure
  rwa [UInt32.ofNat_toNat] at read

theorem reads_write_version {value : UInt64} (fits : value.toNat < 2 ^ 63) :
    Reads readWriteVersion (writeUint value.toNat) value := by
  have nonneg : ¬ (Int64.ofInt value.toNat).toInt < 0 := by
    rw [Int64.toInt_ofInt_of_le (by omega) (by omega)]
    omega
  have same : (Int64.ofInt value.toNat).toUInt64 = value := by
    rw [show Int64.ofInt (value.toNat : Int) = Int64.ofNat value.toNat from rfl,
      Int64.toUInt64_ofNat', UInt64.ofNat_toNat]
  have checked : Reads (if (Int64.ofInt value.toNat).toInt < 0 then
      throw (.other "negative write_version not supported")
      else pure (Int64.ofInt value.toNat).toUInt64 : Decode UInt64) [] value := by
    rw [if_neg nonneg, same]
    exact Reads.pure value
  have whole : Reads readWriteVersion (writeUint value.toNat ++ []) value :=
    (reads_uint_i64 fits).bind checked
  rwa [List.append_nil] at whole

theorem map_len_not_nil (len : Nat) : ∃ byte rest, writeMapLen len = byte :: rest ∧
    byte ≠ Marker.null.toU8 := by
  unfold writeMapLen
  split
  case isTrue small =>
    refine ⟨_, [], rfl, ?_⟩
    revert small
    revert len
    decide
  case isFalse =>
    split
    all_goals exact ⟨_, _, rfl, by decide⟩

theorem reads_nil_or {known : List String} {fields : List Field} {value : α}
    (encoded : EncodesMap known fields bytes)
    (reads : Reads decoder bytes value) : Reads (nilOr decoder) bytes (some value) := by
  obtain ⟨entries, -, -, rfl⟩ := encoded
  obtain ⟨byte, rest, layout, notNil⟩ := map_len_not_nil entries.length
  intro after
  have whole := reads after
  rw [layout] at whole ⊢
  simp only [List.cons_append] at whole ⊢
  simp only [nilOr, StateT.run, bind, StateT.bind, readByte, Except.bind, notNil, if_false,
    modify, modifyGet, MonadStateOf.modifyGet, StateT.modifyGet, pure, Except.pure]
  simp only [StateT.run] at whole
  rw [whole]
  rfl

def TextFits (text : String) : Prop := (utf8 text).length ≤ maxMsgpElementSize

def BinFits (bytes : Bytes) : Prop := bytes.length ≤ maxMsgpElementSize

instance (text : String) : Decidable (TextFits text) :=
  inferInstanceAs (Decidable ((utf8 text).length ≤ maxMsgpElementSize))

instance (bytes : Bytes) : Decidable (BinFits bytes) :=
  inferInstanceAs (Decidable (bytes.length ≤ maxMsgpElementSize))

def ListFits {α : Type} (holds : α → Prop) (items : List α) : Prop :=
  items.length < 2 ^ 32 ∧ ∀ item ∈ items, holds item

structure MetaObject.Fits (object : MetaObject) : Prop where
  erasureDist : object.erasureDist.length < 2 ^ 32
  partNumbers : object.partNumbers.length < 2 ^ 32
  partEtags : ListFits TextFits object.partEtags
  partSizes : object.partSizes.length < 2 ^ 32
  partActualSizes : object.partActualSizes.length < 2 ^ 32
  partIndices : ListFits BinFits object.partIndices
  modTime : timeFits object.modTime
  metaSys : MapFits BinFits object.metaSys
  metaUser : MapFits TextFits object.metaUser

def MetaObject.normal (self : MetaObject) : MetaObject :=
  { self with
    versionId := normalId self.versionId
    dataDir := normalId self.dataDir
    modTime := normalTime self.modTime }

def MetaObject.Encodes (walk : Walk) (self : MetaObject) (bytes : Bytes) : Prop :=
  EncodesMap MetaObject.table.keys (exactFields (self.entries walk)) bytes

section

variable {V : Type} {value : Decode V} {encode : V → Bytes} {holds : V → Prop}
  {map : KeyMap String V} (fits : MapFits holds map)
  (each : ∀ item, holds item → Reads value (encode item) item)

include fits each

theorem reads_map_fits : Reads (readMapOf value) (writeMapOf walk encode map) map :=
  reads_map_of fits.1 (fun entry member => (fits.2 entry member).1)
    fun entry member => each entry.2 (fits.2 entry member).2

theorem reads_nil_or_map_fits :
    Reads (readNilOrMapOf value) (writeNilOrMapOf walk encode map) map :=
  reads_nil_or_map_of fits.1 (fun entry member => (fits.2 entry member).1)
    fun entry member => each entry.2 (fits.2 entry member).2

end

theorem MetaObject.entries_length (walk : Walk) (self : MetaObject) :
    (if self.partIndices.isEmpty then 17 else 18) = (self.entries walk).length := by
  unfold MetaObject.entries
  split <;> rfl

theorem MetaObject.encodes (walk : Walk) (self : MetaObject) :
    self.Encodes walk (self.encodeTo walk) := by
  apply encodes_entries _ (self.entries_length walk) _ (exact_fields_each _)
  rw [← self.entries_length walk]
  split <;> decide

theorem MetaObject.decodes (walk : Walk) (fits : self.Fits) :
    Decodes MetaObject.table (exactFields (self.entries walk)) .default self.normal := by
  simp only [MetaObject.entries, exact_fields_append, exact_fields_cons, exact_fields_nil]
  let beforeSize : MetaObject :=
    { self.normal with size := 0, modTime := none, metaSys := .empty, metaUser := .empty }
  refine append beforeSize (append { beforeSize with partIndices := [] } ?_ ?_) ?_
  · apply exact rfl (by decide) (reads_uuid _)
    apply exact rfl (by decide) (reads_uuid _)
    apply exact rfl (by decide) (reads_erasure_algo _)
    apply exact rfl (by decide) (reads_usize _)
    apply exact rfl (by decide) (reads_usize _)
    apply exact rfl (by decide) (reads_usize _)
    apply exact rfl (by decide) (reads_usize _)
    apply exact rfl (by decide)
      (reads_array_of fits.erasureDist fun v _ => reads_as_u8 v)
    apply exact rfl (by decide) (reads_checksum_algo _)
    apply exact rfl (by decide) (reads_array_of fits.partNumbers fun v _ => reads_usize v)
    apply exact rfl (by decide)
      (reads_nil_or_array_of fits.partEtags.1 fun text member =>
        reads_msgp_string (fits.partEtags.2 text member))
    apply exact rfl (by decide) (reads_array_of fits.partSizes fun v _ => reads_usize v)
    apply exact rfl (by decide)
      (reads_nil_or_array_of fits.partActualSizes fun v _ => reads_sint_i64 v)
    exact .done _
  · split
    case isTrue empty =>
      apply same
      simp [beforeSize, MetaObject.normal, List.isEmpty_iff.1 empty]
    case isFalse =>
      simp only [exact_fields_cons, exact_fields_nil]
      apply exact rfl (by decide)
        (reads_array_of fits.partIndices.1 fun bytes member =>
          reads_msgp_bin (fits.partIndices.2 bytes member))
      exact .done _
  · apply exact rfl (by decide) (reads_sint_i64 _)
    apply exact rfl (by decide) (reads_mod_time fits.modTime)
    apply exact rfl (by decide)
      (reads_nil_or_map_fits fits.metaSys fun bytes short => reads_msgp_bin short)
    apply exact rfl (by decide)
      (reads_nil_or_map_fits fits.metaUser fun text short => reads_msgp_string short)
    exact .done _

theorem MetaObject.reads (fits : self.Fits)
    (encoded : self.Encodes walk bytes) : Reads MetaObject.decodeFrom bytes self.normal := by
  rw [MetaObject.decodeFrom, read_object_key_eq]
  exact reads_fields encoded (MetaObject.decodes walk fits)

structure MetaDeleteMarker.Fits (marker : MetaDeleteMarker) : Prop where
  modTime : timeFits marker.modTime
  metaSys : MapFits BinFits marker.metaSys

def MetaDeleteMarker.normal (self : MetaDeleteMarker) : MetaDeleteMarker :=
  { self with versionId := normalId self.versionId, modTime := normalTime self.modTime }

def MetaDeleteMarker.Encodes (walk : Walk) (self : MetaDeleteMarker) (bytes : Bytes) : Prop :=
  EncodesMap MetaDeleteMarker.table.keys (exactFields (self.entries walk)) bytes

theorem MetaDeleteMarker.encodes (walk : Walk) (self : MetaDeleteMarker) :
    self.Encodes walk (self.encodeTo walk) :=
  encodes_entries _ rfl (by simp [MetaDeleteMarker.entries]) (exact_fields_each _)

theorem MetaDeleteMarker.reads {self : MetaDeleteMarker} (fits : self.Fits) (encoded : self.Encodes walk bytes) :
    Reads MetaDeleteMarker.decodeFrom bytes self.normal := by
  apply reads_fields encoded
  simp only [MetaDeleteMarker.entries, exact_fields_cons, exact_fields_nil]
  apply exact rfl (by decide) (reads_uuid _)
  apply exact rfl (by decide) (reads_mod_time fits.modTime)
  apply exact rfl (by decide)
    (reads_map_fits fits.metaSys fun bytes short => reads_msgp_bin short)
  exact .done _

theorem exact_fields_optional (key : String) (encode : α → Bytes) (value : Option α) :
    exactFields (optionalEntry key encode value) =
      optionalField key (fun item => exactly (encode item)) value := by
  cases value <;> rfl

theorem reads_exactly {value : α}
    (reads : Reads read bytes value) : ∀ encoded, exactly bytes encoded → Reads read encoded value := by
  rintro encoded rfl
  exact reads

theorem optional_entry_length (key : String) (encode : α → Bytes) (value : Option α) :
    (optionalEntry key encode value).length = if value.isSome then 1 else 0 := by
  cases value <;> rfl

def MetaObjectV1Stat.Fits (self : MetaObjectV1Stat) : Prop := TextFits self.name

def MetaObjectV1Stat.Encodes (self : MetaObjectV1Stat) (bytes : Bytes) : Prop :=
  EncodesMap MetaObjectV1Stat.table.keys (exactFields self.entries) bytes

theorem MetaObjectV1Stat.encodes (self : MetaObjectV1Stat) : self.Encodes self.encodeTo := by
  have counted : (if self.modTime.isSome then 5 else 4) = self.entries.length := by
    unfold MetaObjectV1Stat.entries
    cases self.modTime <;> rfl
  apply encodes_entries _ counted _ (exact_fields_each _)
  rw [← counted]
  split <;> decide

theorem MetaObjectV1Stat.reads {self : MetaObjectV1Stat} (fits : self.Fits)
    (encoded : self.Encodes bytes) : Reads MetaObjectV1Stat.decodeFrom bytes self := by
  apply reads_fields encoded
  simp only [MetaObjectV1Stat.entries, exact_fields_append, exact_fields_optional,
    exact_fields_cons, exact_fields_nil]
  let sized : MetaObjectV1Stat := { MetaObjectV1Stat.default with size := self.size }
  refine append { sized with modTime := self.modTime } (append sized ?_ ?_) ?_
  · exact exact rfl (by decide) (reads_sint_i64 _) (.done _)
  · apply optional rfl (by decide) fun time _ => reads_exactly (reads_msgp_time time)
    · intro time present
      rw [present]
    · intro absent
      rw [absent]
      rfl
  · apply exact rfl (by decide) (reads_msgp_string fits)
    apply exact rfl (by decide) ((reads_bool _).map_error _)
    apply exact rfl (by decide) (reads_mode _)
    exact .done _

structure MetaObjectV1ChecksumInfo.Fits (checksum : MetaObjectV1ChecksumInfo) : Prop where
  algorithm : TextFits checksum.algorithm
  hash : BinFits checksum.hash

def MetaObjectV1ChecksumInfo.Encodes (self : MetaObjectV1ChecksumInfo) (bytes : Bytes) : Prop :=
  EncodesMap MetaObjectV1ChecksumInfo.table.keys (exactFields self.entries) bytes

theorem MetaObjectV1ChecksumInfo.encodes (self : MetaObjectV1ChecksumInfo) :
    self.Encodes self.encodeTo :=
  encodes_entries _ rfl (by simp [MetaObjectV1ChecksumInfo.entries]) (exact_fields_each _)

theorem MetaObjectV1ChecksumInfo.reads {self : MetaObjectV1ChecksumInfo} (fits : self.Fits)
    (encoded : self.Encodes bytes) : Reads MetaObjectV1ChecksumInfo.decodeFrom bytes self := by
  apply reads_fields encoded
  simp only [MetaObjectV1ChecksumInfo.entries, exact_fields_cons, exact_fields_nil]
  apply exact rfl (by decide) (reads_usize _)
  apply exact rfl (by decide) (reads_msgp_string fits.algorithm)
  apply exact rfl (by decide) (reads_msgp_bin fits.hash)
  exact .done _

structure MetaObjectV1Erasure.Fits (erasure : MetaObjectV1Erasure) : Prop where
  algorithm : TextFits erasure.algorithm
  distribution : erasure.distribution.length < 2 ^ 32
  checksums : ListFits MetaObjectV1ChecksumInfo.Fits erasure.checksums

def MetaObjectV1Erasure.fields (self : MetaObjectV1Erasure) : List Field :=
  [("Algorithm", exactly (writeMsgpString self.algorithm)),
    ("DataBlocks", exactly (writeUsize self.dataBlocks)),
    ("ParityBlocks", exactly (writeUsize self.parityBlocks)),
    ("BlockSize", exactly (writeUsize self.blockSize)),
    ("Index", exactly (writeUsize self.index)),
    ("Distribution", exactly (writeArrayOf writeUsize self.distribution)),
    ("Checksums", EncodesArray MetaObjectV1ChecksumInfo.Encodes self.checksums)]

def MetaObjectV1Erasure.Encodes (self : MetaObjectV1Erasure) (bytes : Bytes) : Prop :=
  EncodesMap MetaObjectV1Erasure.table.keys self.fields bytes

theorem MetaObjectV1Erasure.encodes (self : MetaObjectV1Erasure) : self.Encodes self.encodeTo := by
  have counted : 7 = self.entries.length := rfl
  apply encodes_entries _ counted (by rw [← counted]; decide)
  simp only [MetaObjectV1Erasure.fields, MetaObjectV1Erasure.entries, List.forall₂_cons,
    List.forall₂_nil_left_iff, exactly, true_and, and_true]
  exact encodes_array_write fun checksum _ => checksum.encodes

theorem MetaObjectV1Erasure.reads {self : MetaObjectV1Erasure} (fits : self.Fits)
    (encoded : self.Encodes bytes) : Reads MetaObjectV1Erasure.decodeFrom bytes self := by
  apply reads_fields encoded
  apply exact rfl (by decide) (reads_msgp_string fits.algorithm)
  apply exact rfl (by decide) (reads_usize _)
  apply exact rfl (by decide) (reads_usize _)
  apply exact rfl (by decide) (reads_usize _)
  apply exact rfl (by decide) (reads_usize _)
  apply exact rfl (by decide) (reads_array_of fits.distribution fun v _ => reads_usize v)
  apply nested rfl (by decide) fun bytes listed =>
    reads_encoded_array fits.checksums.1
      (fun checksum member piece valid => checksum.reads (fits.checksums.2 checksum member) valid)
      listed
  exact .done _

structure MetaObjectV1Part.Fits (part : MetaObjectV1Part) : Prop where
  etag : TextFits part.etag
  index : ∀ index, part.index = some index → BinFits index
  checksums : ∀ checksums, part.checksums = some checksums → MapFits TextFits checksums
  error : ∀ error, part.error = some error → TextFits error

def MetaObjectV1Part.Encodes (walk : Walk) (self : MetaObjectV1Part) (bytes : Bytes) : Prop :=
  EncodesMap MetaObjectV1Part.table.keys (exactFields (self.entries walk)) bytes

theorem MetaObjectV1Part.encodes (walk : Walk) (self : MetaObjectV1Part) :
    self.Encodes walk (self.encodeTo walk) := by
  have counted : 4 + (if self.modTime.isSome then 1 else 0) +
      (if self.index.isSome then 1 else 0) + (if self.checksums.isSome then 1 else 0) +
      (if self.error.isSome then 1 else 0) = (self.entries walk).length := by
    simp only [MetaObjectV1Part.entries, List.length_append, optional_entry_length, List.length_cons,
      List.length_nil]
  apply encodes_entries _ counted _ (exact_fields_each _)
  rw [← counted]
  repeat' split
  all_goals decide

theorem MetaObjectV1Part.reads {self : MetaObjectV1Part} (fits : self.Fits) (encoded : self.Encodes walk bytes) :
    Reads MetaObjectV1Part.decodeFrom bytes self := by
  apply reads_fields encoded
  simp only [MetaObjectV1Part.entries, exact_fields_append, exact_fields_optional,
    exact_fields_cons, exact_fields_nil]
  let scalars : MetaObjectV1Part :=
    { self with modTime := none, index := none, checksums := none, error := none }
  let timed : MetaObjectV1Part := { scalars with modTime := self.modTime }
  let indexed : MetaObjectV1Part := { timed with index := self.index }
  let summed : MetaObjectV1Part := { indexed with checksums := self.checksums }
  refine append summed (append indexed (append timed
    (append scalars ?_ ?_) ?_) ?_) ?_
  · apply exact rfl (by decide) (reads_msgp_string fits.etag)
    apply exact rfl (by decide) (reads_usize _)
    apply exact rfl (by decide) (reads_usize _)
    apply exact rfl (by decide) (reads_sint_i64 _)
    exact .done _
  · apply optional rfl (by decide) fun time _ => reads_exactly (reads_msgp_time time)
    · intro time present
      simp only [timed, present]
    · intro absent
      simp only [timed, absent, scalars]
  · apply optional rfl (by decide) fun index present =>
      reads_exactly (reads_msgp_bin (fits.index index present))
    · intro index present
      simp only [indexed, present]
    · intro absent
      simp only [indexed, absent, timed, scalars]
  · apply optional rfl (by decide) fun checksums present =>
      reads_exactly (reads_map_fits (fits.checksums checksums present) fun text short =>
        reads_msgp_string short)
    · intro checksums present
      simp only [summed, present]
    · intro absent
      simp only [summed, absent, indexed, timed, scalars]
  · apply optional rfl (by decide) fun error present =>
      reads_exactly (reads_msgp_string (fits.error error present))
    · intro error present
      simp only [summed, indexed, timed, scalars, ← present]
    · intro absent
      simp only [summed, indexed, timed, scalars, ← absent]

structure MetaObjectV1.Fits (legacy : MetaObjectV1) : Prop where
  version : TextFits legacy.version
  format : TextFits legacy.format
  stat : legacy.stat.Fits
  erasure : legacy.erasure.Fits
  metadata : MapFits TextFits legacy.metadata
  parts : ListFits MetaObjectV1Part.Fits legacy.parts
  versionId : TextFits legacy.versionId
  dataDir : TextFits legacy.dataDir

def MetaObjectV1.fields (walk : Walk) (self : MetaObjectV1) : List Field :=
  [("Version", exactly (writeMsgpString self.version)),
    ("Format", exactly (writeMsgpString self.format)),
    ("Stat", self.stat.Encodes),
    ("Erasure", self.erasure.Encodes),
    ("Meta", exactly (writeMapOf walk writeMsgpString self.metadata)),
    ("Parts", EncodesArray (MetaObjectV1Part.Encodes walk) self.parts),
    ("VersionID", exactly (writeMsgpString self.versionId)),
    ("DataDir", exactly (writeMsgpString self.dataDir))]

def MetaObjectV1.Encodes (walk : Walk) (self : MetaObjectV1) (bytes : Bytes) : Prop :=
  EncodesMap MetaObjectV1.table.keys (self.fields walk) bytes

theorem MetaObjectV1.encodes (walk : Walk) (self : MetaObjectV1) :
    self.Encodes walk (self.encodeTo walk) := by
  have counted : 8 = (self.entries walk).length := rfl
  apply encodes_entries _ counted (by rw [← counted]; decide)
  simp only [MetaObjectV1.fields, MetaObjectV1.entries, List.forall₂_cons,
    List.forall₂_nil_left_iff, exactly, true_and, and_true]
  exact ⟨self.stat.encodes, self.erasure.encodes,
    encodes_array_write fun part _ => part.encodes walk⟩

theorem MetaObjectV1.reads {self : MetaObjectV1} (fits : self.Fits)
    (encoded : self.Encodes walk bytes) : Reads MetaObjectV1.decodeFrom bytes self := by
  apply reads_fields encoded
  apply exact rfl (by decide) (reads_msgp_string fits.version)
  apply exact rfl (by decide) (reads_msgp_string fits.format)
  apply nested rfl (by decide) fun bytes encoded => MetaObjectV1Stat.reads fits.stat encoded
  apply nested rfl (by decide) fun bytes encoded =>
    MetaObjectV1Erasure.reads fits.erasure encoded
  apply exact rfl (by decide)
    (reads_map_fits fits.metadata fun text short => reads_msgp_string short)
  apply nested rfl (by decide) fun bytes listed =>
    reads_encoded_array fits.parts.1
      (fun part member piece valid => part.reads (fits.parts.2 part member) valid) listed
  apply exact rfl (by decide) (reads_msgp_string fits.versionId)
  apply exact rfl (by decide) (reads_msgp_string fits.dataDir)
  exact .done _

structure FileMetaVersion.Fits (version : FileMetaVersion) : Prop where
  legacyObject : ∀ legacy, version.legacyObject = some legacy → legacy.Fits
  object : ∀ object, version.object = some object → object.Fits
  deleteMarker : ∀ marker, version.deleteMarker = some marker → marker.Fits
  writeVersion : version.writeVersion.toNat < 2 ^ 63
  usesLegacyChecksum : version.usesLegacyChecksum = false

def FileMetaVersion.normal (self : FileMetaVersion) : FileMetaVersion :=
  { self with
    object := self.object.map MetaObject.normal
    deleteMarker := self.deleteMarker.map MetaDeleteMarker.normal }

def FileMetaVersion.fields (walk : Walk) (self : FileMetaVersion) : List Field :=
  [("Type", exactly (writeUint self.versionType.toU8.toNat))] ++
  optionalField "V1Obj" (MetaObjectV1.Encodes walk) self.legacyObject ++
  optionalField "V2Obj" (MetaObject.Encodes walk) self.object ++
  optionalField "DelObj" (MetaDeleteMarker.Encodes walk) self.deleteMarker ++
  [("v", exactly (writeUint self.writeVersion.toNat))]

/-- The byte strings that encode a version: what `encode_to` writes, with
entries under unknown keys anywhere in any of the maps. -/
def FileMetaVersion.Encodes (walk : Walk) (self : FileMetaVersion) (bytes : Bytes) : Prop :=
  EncodesMap FileMetaVersion.table.keys (self.fields walk) bytes

theorem optional_each (key : String) {encodes : α → Bytes → Prop}
    (value : Option α) (each : ∀ item, encodes item (encode item)) :
    List.Forall₂ (fun (field : Field) entry => field.1 = entry.1 ∧ field.2 entry.2)
      (optionalField key encodes value) (optionalEntry key encode value) := by
  cases value with
  | none => exact .nil
  | some item => exact .cons ⟨rfl, each item⟩ .nil

theorem FileMetaVersion.encodes (walk : Walk) (self : FileMetaVersion) :
    self.Encodes walk (self.encodeTo walk) := by
  have counted : 2 + (if self.legacyObject.isSome then 1 else 0) +
      (if self.object.isSome then 1 else 0) + (if self.deleteMarker.isSome then 1 else 0) =
        (self.entries walk).length := by
    simp only [FileMetaVersion.entries, List.length_append, optional_entry_length,
      List.length_cons, List.length_nil]
    omega
  apply encodes_entries _ counted
  · rw [← counted]
    repeat' split
    all_goals decide
  · apply List.rel_append
    · apply List.rel_append
      · apply List.rel_append
        · apply List.rel_append
          · exact .cons ⟨rfl, rfl⟩ .nil
          · exact optional_each _ _ (MetaObjectV1.encodes walk)
        · exact optional_each _ _ (MetaObject.encodes walk)
      · exact optional_each _ _ (MetaDeleteMarker.encodes walk)
    · exact .cons ⟨rfl, rfl⟩ .nil

theorem FileMetaVersion.reads {self : FileMetaVersion} (fits : self.Fits) (encoded : self.Encodes walk bytes) :
    Reads FileMetaVersion.decodeFrom bytes self.normal := by
  apply reads_fields encoded
  let typed : FileMetaVersion := { FileMetaVersion.default with versionType := self.versionType }
  let legacy : FileMetaVersion := { typed with legacyObject := self.legacyObject }
  let object : FileMetaVersion := { legacy with object := self.normal.object }
  let marked : FileMetaVersion := { object with deleteMarker := self.normal.deleteMarker }
  refine append marked (append object (append legacy
    (append typed ?_ ?_) ?_) ?_) ?_
  · exact exact rfl (by decide) (reads_version_type _) (.done _)
  · apply optional rfl (by decide) fun body present bytes encoded =>
      reads_nil_or encoded (MetaObjectV1.reads (fits.legacyObject body present) encoded)
    · intro body present
      simp only [legacy, present]
    · intro absent
      simp only [legacy, absent]
      rfl
  · apply optional rfl (by decide) fun body present bytes encoded =>
      reads_nil_or encoded (MetaObject.reads (fits.object body present) encoded)
    · intro body present
      simp only [object, FileMetaVersion.normal, present, map_some]
    · intro absent
      simp only [object, FileMetaVersion.normal, absent, map_none]
      rfl
  · apply optional rfl (by decide) fun body present bytes encoded =>
      reads_nil_or encoded (MetaDeleteMarker.reads (fits.deleteMarker body present) encoded)
    · intro body present
      simp only [marked, FileMetaVersion.normal, present, map_some]
    · intro absent
      simp only [marked, FileMetaVersion.normal, absent, map_none]
      rfl
  · apply exact rfl (by decide) (reads_write_version fits.writeVersion)
    apply same
    simp [marked, object, legacy, typed, FileMetaVersion.normal, fits.usesLegacyChecksum,
      FileMetaVersion.default]

variable {holds : α → Prop}

theorem yields_row {store : σ → α → σ} {invariant : σ → Prop} (reads : Yields read holds)
    (keeps : ∀ state value, invariant state → holds value → invariant (store state value)) :
    ∀ state, invariant state → Yields ((row key read store).2 state) invariant :=
  fun state held => reads.bind fun value found => Yields.pure (keeps state value held found)

/-- A decoded object keeps the codec's bounds and has no nil id and no epoch. -/
structure MetaObject.Canonical (object : MetaObject) : Prop extends object.Fits where
  idNormal : normalId object.versionId = object.versionId
  dirNormal : normalId object.dataDir = object.dataDir
  timeNormal : normalTime object.modTime = object.modTime

theorem list_fits_nil (holds : α → Prop) : ListFits holds [] :=
  ⟨by simp, by simp⟩

theorem map_fits_empty {V : Type} (holds : V → Prop) : MapFits holds KeyMap.empty :=
  ⟨by simp [KeyMap.empty], by simp [KeyMap.empty]⟩

theorem MetaObject.default_canonical : MetaObject.default.Canonical where
  erasureDist := by simp [MetaObject.default]
  partNumbers := by simp [MetaObject.default]
  partEtags := list_fits_nil _
  partSizes := by simp [MetaObject.default]
  partActualSizes := by simp [MetaObject.default]
  partIndices := list_fits_nil _
  modTime := by simp [MetaObject.default, timeFits]
  metaSys := map_fits_empty _
  metaUser := map_fits_empty _
  idNormal := rfl
  dirNormal := rfl
  timeNormal := rfl

theorem MetaObject.yields : Yields MetaObject.decodeFrom MetaObject.Canonical := by
  apply yields_fields MetaObject.default_canonical
  simp only [MetaObject.table, List.forall_mem_cons]
  refine ⟨yields_row yields_uuid fun s v held found => { held with idNormal := found },
    yields_row yields_uuid fun s v held found => { held with dirNormal := found },
    yields_row (Yields.trivial _) fun s v held _ => { held with },
    yields_row (Yields.trivial _) fun s v held _ => { held with },
    yields_row (Yields.trivial _) fun s v held _ => { held with },
    yields_row (Yields.trivial _) fun s v held _ => { held with },
    yields_row (Yields.trivial _) fun s v held _ => { held with },
    yields_row (yields_array_of (Yields.trivial _)) fun s v held found =>
      { held with erasureDist := found.1 },
    yields_row (Yields.trivial _) fun s v held _ => { held with },
    yields_row (yields_array_of (Yields.trivial _)) fun s v held found =>
      { held with partNumbers := found.1 },
    yields_row (yields_nil_or_array_of yields_msgp_string) fun s v held found =>
      { held with partEtags := found },
    yields_row (yields_array_of (Yields.trivial _)) fun s v held found =>
      { held with partSizes := found.1 },
    yields_row (yields_nil_or_array_of (Yields.trivial _)) fun s v held found =>
      { held with partActualSizes := found.1 },
    yields_row (yields_array_of yields_msgp_bin) fun s v held found =>
      { held with partIndices := found },
    yields_row (Yields.trivial _) fun s v held _ => { held with },
    yields_row yields_mod_time fun s v held found =>
      { held with modTime := found.1, timeNormal := found.2 },
    yields_row (yields_nil_or_map_of yields_msgp_bin) fun s v held found =>
      { held with metaSys := found },
    yields_row (yields_nil_or_map_of yields_msgp_string) fun s v held found =>
      { held with metaUser := found }, by simp⟩

structure MetaDeleteMarker.Canonical (marker : MetaDeleteMarker) : Prop extends marker.Fits where
  idNormal : normalId marker.versionId = marker.versionId
  timeNormal : normalTime marker.modTime = marker.modTime

theorem MetaDeleteMarker.yields :
    Yields MetaDeleteMarker.decodeFrom MetaDeleteMarker.Canonical := by
  have initial : MetaDeleteMarker.default.Canonical :=
    ⟨⟨by simp [MetaDeleteMarker.default, timeFits], map_fits_empty _⟩, rfl, rfl⟩
  apply yields_fields initial
  simp only [MetaDeleteMarker.table, List.forall_mem_cons]
  exact ⟨yields_row yields_uuid fun s v held found => { held with idNormal := found },
    yields_row yields_mod_time fun s v held found =>
      { held with modTime := found.1, timeNormal := found.2 },
    yields_row (yields_map_of yields_msgp_bin) fun s v held found =>
      { held with metaSys := found }, by simp⟩

theorem text_fits_empty : TextFits "" := by
  decide

theorem MetaObjectV1Stat.yields : Yields MetaObjectV1Stat.decodeFrom MetaObjectV1Stat.Fits := by
  have initial : MetaObjectV1Stat.default.Fits := text_fits_empty
  apply yields_fields initial
  simp only [MetaObjectV1Stat.table, List.forall_mem_cons]
  exact ⟨yields_row (Yields.trivial _) fun s v held _ => held,
    yields_row (Yields.trivial _) fun s v held _ => held,
    yields_row yields_msgp_string fun s v _ found => found,
    yields_row (Yields.trivial _) fun s v held _ => held,
    yields_row (Yields.trivial _) fun s v held _ => held, by simp⟩

theorem MetaObjectV1ChecksumInfo.yields :
    Yields MetaObjectV1ChecksumInfo.decodeFrom MetaObjectV1ChecksumInfo.Fits := by
  have initial : MetaObjectV1ChecksumInfo.default.Fits :=
    ⟨text_fits_empty, by simp [BinFits, MetaObjectV1ChecksumInfo.default]⟩
  apply yields_fields initial
  simp only [MetaObjectV1ChecksumInfo.table, List.forall_mem_cons]
  exact ⟨yields_row (Yields.trivial _) fun s v held _ => { held with },
    yields_row yields_msgp_string fun s v held found => { held with algorithm := found },
    yields_row yields_msgp_bin fun s v held found => { held with hash := found }, by simp⟩

theorem MetaObjectV1Erasure.yields :
    Yields MetaObjectV1Erasure.decodeFrom MetaObjectV1Erasure.Fits := by
  have initial : MetaObjectV1Erasure.default.Fits :=
    ⟨text_fits_empty, by simp [MetaObjectV1Erasure.default], list_fits_nil _⟩
  apply yields_fields initial
  simp only [MetaObjectV1Erasure.table, List.forall_mem_cons]
  exact ⟨yields_row yields_msgp_string fun s v held found => { held with algorithm := found },
    yields_row (Yields.trivial _) fun s v held _ => { held with },
    yields_row (Yields.trivial _) fun s v held _ => { held with },
    yields_row (Yields.trivial _) fun s v held _ => { held with },
    yields_row (Yields.trivial _) fun s v held _ => { held with },
    yields_row (yields_array_of (Yields.trivial _)) fun s v held found =>
      { held with distribution := found.1 },
    yields_row (yields_array_of MetaObjectV1ChecksumInfo.yields) fun s v held found =>
      { held with checksums := found }, by simp⟩

theorem MetaObjectV1Part.yields : Yields MetaObjectV1Part.decodeFrom MetaObjectV1Part.Fits := by
  have initial : MetaObjectV1Part.default.Fits :=
    ⟨text_fits_empty, by simp [MetaObjectV1Part.default], by simp [MetaObjectV1Part.default],
      by simp [MetaObjectV1Part.default]⟩
  apply yields_fields initial
  simp only [MetaObjectV1Part.table, List.forall_mem_cons]
  exact ⟨yields_row yields_msgp_string fun s v held found => { held with etag := found },
    yields_row (Yields.trivial _) fun s v held _ => { held with },
    yields_row (Yields.trivial _) fun s v held _ => { held with },
    yields_row (Yields.trivial _) fun s v held _ => { held with },
    yields_row (Yields.trivial _) fun s v held _ => { held with },
    yields_row yields_msgp_bin fun s v held found =>
      { held with index := by rintro _ ⟨⟩; exact found },
    yields_row (yields_map_of yields_msgp_string) fun s v held found =>
      { held with checksums := by rintro _ ⟨⟩; exact found },
    yields_row yields_msgp_string fun s v held found =>
      { held with error := by rintro _ ⟨⟩; exact found }, by simp⟩

theorem MetaObjectV1.yields : Yields MetaObjectV1.decodeFrom MetaObjectV1.Fits := by
  have initial : MetaObjectV1.default.Fits :=
    ⟨text_fits_empty, text_fits_empty, text_fits_empty,
      ⟨text_fits_empty, by simp [MetaObjectV1.default, MetaObjectV1Erasure.default],
        list_fits_nil _⟩, map_fits_empty _, list_fits_nil _, text_fits_empty, text_fits_empty⟩
  apply yields_fields initial
  simp only [MetaObjectV1.table, List.forall_mem_cons]
  exact ⟨yields_row yields_msgp_string fun s v held found => { held with version := found },
    yields_row yields_msgp_string fun s v held found => { held with format := found },
    yields_row MetaObjectV1Stat.yields fun s v held found => { held with stat := found },
    yields_row MetaObjectV1Erasure.yields fun s v held found => { held with erasure := found },
    yields_row (yields_map_of yields_msgp_string) fun s v held found =>
      { held with metadata := found },
    yields_row (yields_array_of MetaObjectV1Part.yields) fun s v held found =>
      { held with parts := found },
    yields_row yields_msgp_string fun s v held found => { held with versionId := found },
    yields_row yields_msgp_string fun s v held found => { held with dataDir := found }, by simp⟩

theorem yields_nil_or (yields : Yields decoder holds) :
    Yields (nilOr decoder) fun body => ∀ value, body = some value → holds value := by
  apply Yields.bind_any
  intro byte
  split
  case isTrue => exact Yields.pure (by simp)
  case isFalse =>
    apply Yields.bind_any
    intro _
    exact yields.bind fun value found => Yields.pure (by rintro _ ⟨⟩; exact found)

theorem yields_write_version : Yields readWriteVersion fun value => value.toNat < 2 ^ 63 := by
  apply Yields.bind_any
  intro value
  split
  case isTrue => exact Yields.throw
  case isFalse nonneg =>
    apply Yields.pure
    have same : value.toInt = if 2 * value.toUInt64.toNat < 2 ^ 64 then (value.toUInt64.toNat : Int)
        else value.toUInt64.toNat - 2 ^ 64 := BitVec.toInt_eq_toNat_cond _
    have bounded := value.toUInt64.toNat_lt
    split at same <;> omega

/-- A decoded version keeps the codec's bounds and is its own normal form. -/
structure FileMetaVersion.Canonical (version : FileMetaVersion) : Prop where
  legacyObject : ∀ legacy, version.legacyObject = some legacy → legacy.Fits
  object : ∀ object, version.object = some object → object.Canonical
  deleteMarker : ∀ marker, version.deleteMarker = some marker → marker.Canonical
  writeVersion : version.writeVersion.toNat < 2 ^ 63
  usesLegacyChecksum : version.usesLegacyChecksum = false

theorem FileMetaVersion.Canonical.fits (canonical : version.Canonical) : version.Fits where
  legacyObject := canonical.legacyObject
  object body present := (canonical.object body present).toFits
  deleteMarker marker present := (canonical.deleteMarker marker present).toFits
  writeVersion := canonical.writeVersion
  usesLegacyChecksum := canonical.usesLegacyChecksum

theorem FileMetaVersion.yields : Yields FileMetaVersion.decodeFrom FileMetaVersion.Canonical := by
  have initial : FileMetaVersion.default.Canonical :=
    ⟨by simp [FileMetaVersion.default], by simp [FileMetaVersion.default],
      by simp [FileMetaVersion.default], by simp [FileMetaVersion.default], rfl⟩
  apply yields_fields initial
  simp only [FileMetaVersion.table, List.forall_mem_cons]
  exact ⟨yields_row (Yields.trivial _) fun s v held _ => { held with },
    yields_row (yields_nil_or MetaObjectV1.yields) fun s v held found =>
      { held with legacyObject := found },
    yields_row (yields_nil_or MetaObject.yields) fun s v held found =>
      { held with object := found },
    yields_row (yields_nil_or MetaDeleteMarker.yields) fun s v held found =>
      { held with deleteMarker := found },
    yields_row yields_write_version fun s v held found => { held with writeVersion := found },
    by simp⟩

end Rustfs.Filemeta
