import Rustfs.Filemeta.FileInfo

/-!
# Headers of version bodies

The header that is derived from a body, with its signature, when a body counts
as valid, and how the bytes of a stored version are decoded.
-/

namespace Rustfs.Filemeta

open Library Library.MessagePack Utils

def transitionComplete : String := "complete"

/-- Four signature bytes, in the order in which they are stored. -/
def signatureOf (bytes : Bytes) : BitVec 32 := BitVec.ofNat 32 (beNat bytes)

/-- The bytes `e`, `r`, `r`, `0`. -/
def signatureErr : BitVec 32 := signatureOf [0x65, 0x72, 0x72, 0]

def foldSignature (crc : UInt64) : BitVec 32 :=
  signatureOf (beBytes 4 ((crc ^^^ (crc >>> 32)).toNat % 2 ^ 32)).reverse

def hashEntry (hash : Hash) (key value : Bytes) : UInt64 :=
  (hash key ^^^ 0x4ee3bbaf7ab2506b) + (hash value ^^^ 0x8da4c8da66194257)

def hashDeterministicString (hash : Hash) (map : Metadata) : UInt64 :=
  map.entries.foldl (fun crc entry => crc ^^^ hashEntry hash (utf8 entry.1) (utf8 entry.2))
    0xc2b40bbac11a7295

def hashDeterministicBytes (hash : Hash) (map : SysMetadata) : UInt64 :=
  map.entries.foldl (fun crc entry => crc ^^^ hashEntry hash (utf8 entry.1) entry.2)
    0x1bbc7e1dde654743

def MetaObject.signatureBody (object : MetaObject) : MetaObject :=
  { object with
    erasureIndex := 0
    partEtags := if object.partEtags.all String.isEmpty then [] else object.partEtags
    metaSys := .empty
    metaUser := .empty }

def MetaObject.getSignature (env : Runtime) (object : MetaObject) : BitVec 32 :=
  foldSignature (hashDeterministicString env.hash object.metaUser ^^^
    hashDeterministicBytes env.hash object.metaSys ^^^
      env.hash (object.signatureBody.encodeTo env.walk))

def MetaDeleteMarker.getSignature (env : Runtime) (marker : MetaDeleteMarker) : BitVec 32 :=
  foldSignature (hashDeterministicBytes env.hash marker.metaSys ^^^
    env.hash ({ marker with metaSys := .empty : MetaDeleteMarker }.encodeTo env.walk))

def leBytes (width : Nat) (value : Int) : Bytes := (beInt width value).reverse

def nanosBytes (time : Option OffsetDateTime) : Bytes :=
  match time with
  | some time => leBytes 16 time.unixTimestampNanos
  | none => []

def MetaObjectV1.signatureInput (legacy : MetaObjectV1) : Bytes :=
  utf8 legacy.version ++ utf8 legacy.format ++ leBytes 8 legacy.stat.size.toInt ++
  leBytes 4 legacy.stat.mode.toNat ++ nanosBytes legacy.stat.modTime ++
  utf8 legacy.erasure.algorithm ++ leBytes 8 legacy.erasure.dataBlocks.toNat ++
  leBytes 8 legacy.erasure.parityBlocks.toNat ++ leBytes 8 legacy.erasure.blockSize.toNat ++
  (legacy.erasure.distribution.flatMap fun slot => leBytes 8 slot.toNat) ++
  (legacy.erasure.checksums.flatMap fun checksum =>
    leBytes 8 checksum.partNumber.toNat ++ utf8 checksum.algorithm ++ checksum.hash) ++
  (legacy.metadata.entries.flatMap fun entry => utf8 entry.1 ++ utf8 entry.2) ++
  legacy.parts.flatMap fun part =>
    leBytes 8 part.number.toNat ++ leBytes 8 part.size.toNat ++ leBytes 8 part.actualSize.toInt ++
    utf8 part.etag ++ nanosBytes part.modTime ++ part.index.getD []

def MetaObjectV1.getSignature (env : Runtime) (legacy : MetaObjectV1) : BitVec 32 :=
  signatureOf ((leBytes 8 (env.hash legacy.signatureInput).toNat).take 4)

def MetaObjectV1.parsedVersionId (env : Runtime) (legacy : MetaObjectV1) : Option Uuid :=
  if legacy.versionId.isEmpty then none
  else (env.parseUuid legacy.versionId).filter fun id => !id.isNil

/-- A legacy body counts as valid with a known geometry. The sum of the blocks is exact
here; a `usize` holds any below `2 ^ 64`. -/
def MetaObjectV1.valid (legacy : MetaObjectV1) : Bool :=
  let data := legacy.erasure.dataBlocks.toNat
  let parity := legacy.erasure.parityBlocks.toNat
  legacy.format = "xl" && legacy.stat.modTime.isSome && 0 < data && parity ≤ data &&
    0 < legacy.erasure.index.toNat && legacy.erasure.index.toNat ≤ data + parity &&
    isValidDistribution legacy.erasure.distribution (data + parity)

def MetaObject.inlinedata (object : MetaObject) : Bool :=
  containsKeyBytes object.metaSys suffixInlineData

def MetaObject.transitionedAway (object : MetaObject) : Bool :=
  getBytes object.metaSys suffixTransitionStatus = some (utf8 transitionComplete)

def MetaObject.usesDataDir (env : Runtime) (object : MetaObject) : Bool :=
  !object.transitionedAway && isRestoredObjectOnDisk env object.metaUser

def MetaDeleteMarker.freeVersion (marker : MetaDeleteMarker) : Bool :=
  containsKeyBytes marker.metaSys suffixFreeVersion

namespace FileMetaVersion

def freeVersion (version : FileMetaVersion) : Bool :=
  version.versionType = .delete && version.deleteMarker.any MetaDeleteMarker.freeVersion

/-- An object counts as valid with any mod time, a delete marker only with one
after the epoch. -/
def valid (version : FileMetaVersion) : Bool :=
  match version.versionType with
  | .object => version.object.any fun object =>
    object.erasureAlgorithm.valid && object.bitrotChecksumAlgo.valid && object.modTime.isSome
  | .legacy => version.legacyObject.any MetaObjectV1.valid
  | .delete => version.deleteMarker.any fun marker =>
    OffsetDateTime.unixEpoch < marker.modTime.getD OffsetDateTime.unixEpoch
  | .invalid => false

def getVersionId (env : Runtime) (version : FileMetaVersion) : Option Uuid :=
  match version.versionType with
  | .object => version.object.bind MetaObject.versionId
  | .delete => version.deleteMarker.bind MetaDeleteMarker.versionId
  | .legacy => version.legacyObject.bind (MetaObjectV1.parsedVersionId env)
  | .invalid => none

def getModTime (version : FileMetaVersion) : Option OffsetDateTime :=
  match version.versionType with
  | .object => version.object.bind MetaObject.modTime
  | .delete => version.deleteMarker.bind MetaDeleteMarker.modTime
  | .legacy => version.legacyObject.bind fun legacy => legacy.stat.modTime
  | .invalid => none

def getSignature (env : Runtime) (version : FileMetaVersion) : BitVec 32 :=
  match version.versionType with
  | .object => (version.object.map (MetaObject.getSignature env)).getD signatureErr
  | .delete => (version.deleteMarker.map (MetaDeleteMarker.getSignature env)).getD signatureErr
  | .legacy => (version.legacyObject.map (MetaObjectV1.getSignature env)).getD signatureErr
  | .invalid => signatureErr

def objectOfType (version : FileMetaVersion) : Option MetaObject :=
  if version.versionType = .object then version.object else none

def headerFlags (env : Runtime) (version : FileMetaVersion) : UInt8 :=
  (if version.freeVersion then flagFreeVersion else 0) |||
    (if version.objectOfType.any (MetaObject.usesDataDir env) then flagUsesDataDir else 0) |||
      (if version.objectOfType.any MetaObject.inlinedata then flagInlineData else 0)

def header (env : Runtime) (version : FileMetaVersion) : FileMetaVersionHeader where
  versionId := version.getVersionId env
  modTime := version.getModTime
  signature := version.getSignature env
  versionType := version.versionType
  flags := version.headerFlags env
  ecN := (version.objectOfType.map fun object => object.erasureN.toUInt8).getD 0
  ecM := (version.objectOfType.map fun object => object.erasureM.toUInt8).getD 0

/-- `FileMetaVersion::try_from`: a body that does not decode, or decodes to an
invalid version, is handed to the older decoders. -/
def tryFrom (env : Runtime) (bytes : Bytes) : Except Error FileMetaVersion :=
  match unmarshalMsg bytes with
  | .ok version =>
    if version.valid then .ok { version with usesLegacyChecksum := false }
    else env.legacyVersion bytes
  | .error _ => env.legacyVersion bytes

def toShallow (env : Runtime) (version : FileMetaVersion) : FileMetaShallowVersion :=
  ⟨version.header env, version.marshalMsg env.walk⟩

end FileMetaVersion

def FileMetaShallowVersion.parseVersionMeta (env : Runtime) (version : FileMetaShallowVersion) :
    Except Error FileMetaVersion :=
  FileMetaVersion.tryFrom env version.metaBytes

def hexDigits : (width : Nat) → Nat → List Char
  | 0, _ => []
  | width + 1, value => hexDigits width (value / 16) ++ [Nat.digitChar (value % 16)]

def hyphenate : (groups : List Nat) → List Char → List Char
  | [], _ => []
  | [last], digits => digits.take last
  | size :: groups, digits => digits.take size ++ '-' :: hyphenate groups (digits.drop size)

/-- `Uuid::to_string`: hyphenated, in lower case. -/
def Uuid.text (id : Uuid) : String :=
  String.ofList (hyphenate [8, 4, 4, 4, 12] (hexDigits 32 id.toNat))

def isSkipMetaKey (os : Platform) (key : String) : Bool :=
  hasInternalSuffix os key suffixHealing || hasInternalSuffix os key suffixDataMov

def transitionedVersionBytes (fi : FileInfo) : Option Bytes :=
  (fi.transitionVersion.map utf8).or (fi.transitionVersionId.map uuidBytes)

def setTransitionVersionState (metaSys : SysMetadata) (state : TransitionVersionState)
    (sourceMetadata : Metadata) : SysMetadata :=
  if state = .unknown && !containsKeyStr sourceMetadata suffixTransitionedVersionState then
    removeBytes metaSys suffixTransitionedVersionState
  else insertBytes metaSys suffixTransitionedVersionState (utf8 state.asStr)

/-- A text that is stored only when it is not empty. -/
def insertText (metaSys : SysMetadata) (suffix text : String) : SysMetadata :=
  if text.isEmpty then metaSys else insertBytes metaSys suffix (utf8 text)

def insertOptional (metaSys : SysMetadata) (suffix : String) (value : Option Bytes) : SysMetadata :=
  match value with
  | some value => insertBytes metaSys suffix value
  | none => metaSys

/-- The transition fields of a new body, in the order in which both conversions
write them. -/
def insertTransition (fi : FileInfo) (withState : Bool) (metaSys : SysMetadata) : SysMetadata :=
  let named := insertText (insertText metaSys suffixTransitionStatus fi.transitionStatus)
    suffixTransitionedObjectname fi.transitionedObjname
  let versioned := insertOptional named suffixTransitionedVersionId (transitionedVersionBytes fi)
  let stated := if withState then
      setTransitionVersionState versioned fi.transitionVersionState fi.metadata
    else versioned
  insertText stated suffixTransitionTier fi.transitionTier

/-- One metadata entry of a request, sorted into the system or the user map. -/
def MetaObject.storeMetadata (os : Platform) (object : MetaObject) (entry : String × String) :
    MetaObject :=
  if isInternalKey entry.1 then
    if isSkipMetaKey os entry.1 then object
    else { object with metaSys := object.metaSys.insert entry.1 (utf8 entry.2) }
  else { object with metaUser := object.metaUser.insert entry.1 entry.2 }

def MetaObject.storeAll (env : Runtime) (object : MetaObject) (metadata : Metadata) : MetaObject :=
  (env.walk.enumerate metadata.entries).foldl (MetaObject.storeMetadata env.toPlatform) object

def MetaObject.fromFileInfo (env : Runtime) (fi : FileInfo) : MetaObject :=
  let split := MetaObject.default.storeAll env fi.metadata
  { versionId := fi.versionId
    dataDir := fi.dataDir
    erasureAlgorithm := .reedSolomon
    erasureM := fi.erasure.dataBlocks
    erasureN := fi.erasure.parityBlocks
    erasureBlockSize := fi.erasure.blockSize
    erasureIndex := fi.erasure.index
    erasureDist := fi.erasure.distribution.map UInt64.toUInt8
    bitrotChecksumAlgo := .highwayHash
    partNumbers := fi.parts.map ObjectPartInfo.number
    partEtags := fi.parts.map ObjectPartInfo.etag
    partSizes := fi.parts.map ObjectPartInfo.size
    partActualSizes := fi.parts.map ObjectPartInfo.actualSize
    partIndices := fi.parts.map fun part => part.index.getD []
    size := fi.size
    modTime := fi.modTime
    metaSys := insertOptional (insertTransition fi (!fi.transitionStatus.isEmpty) split.metaSys)
      suffixCrc fi.checksum
    metaUser := split.metaUser }

/-- The internal metadata of a request: keys of replication targets keep their
spelling, every other suffix is collected once, from the preferred prefix. -/
structure DurableMetadata where
  metaSys : SysMetadata
  durable : KeyMap String (String × Bool)

def isTargetKey (key : String) : Bool :=
  (internalKeyStripSuffixPrefix key suffixReplicationResetArnPrefix).isSome ||
    (internalKeyStripSuffixPrefix key suffixReplicationDeleteMarkerVersionArnPrefix).isSome

def DurableMetadata.hold (found : DurableMetadata) (suffix value : String) (preferred : Bool) :
    DurableMetadata :=
  match found.durable.get suffix with
  | none => { found with durable := found.durable.insert suffix (value, preferred) }
  | some held =>
    if preferred && !held.2 then
      { found with durable := found.durable.insert suffix (value, true) }
    else found

def DurableMetadata.collect (os : Platform) (found : DurableMetadata) (entry : String × String) :
    DurableMetadata :=
  if !isInternalKey entry.1 || isSkipMetaKey os entry.1 then found
  else if isTargetKey entry.1 then
    { found with metaSys := found.metaSys.insert entry.1 (utf8 entry.2) }
  else
    match stripInternalPrefix os entry.1 with
    | none => found
    | some suffix =>
      found.hold suffix entry.2 (startsWithIgnoreAsciiCase entry.1 rustfsInternalPrefix)

def durableMetadata (env : Runtime) (metadata : Metadata) : SysMetadata :=
  let found := (env.walk.enumerate metadata.entries).foldl
    (DurableMetadata.collect env.toPlatform) ⟨.empty, .empty⟩
  (env.walk.enumerate found.durable.entries).foldl
    (fun metaSys entry => insertBytes metaSys entry.1 (utf8 entry.2.1)) found.metaSys

def formatReplicationTimestamp (env : Runtime) (time : Option OffsetDateTime) : String :=
  env.formatReplicationTimestamp (time.getD .unixEpoch)

def persistDeleteMarkerReplicationState (env : Runtime) (metaSys : SysMetadata)
    (state : ReplicationState) : SysMetadata :=
  let replica := if state.replicaStatus.isEmpty then metaSys
    else insertBytes
      (insertBytes metaSys suffixReplicaStatus (utf8 state.replicaStatus.asStr))
      suffixReplicaTimestamp (utf8 (formatReplicationTimestamp env state.replicaTimestamp))
  match state.replicationStatusInternal with
  | none => replica
  | some status =>
    if status.isEmpty then replica
    else insertBytes (insertBytes replica suffixReplicationStatus (utf8 status))
      suffixReplicationTimestamp (utf8 (formatReplicationTimestamp env state.replicationTimestamp))

def stripPrefix (text start : String) : Option String :=
  if start.toList.isPrefixOf text.toList then some (dropPrefix text start) else none

/-- The suffix a reset entry is stored under; a bare target gets the reset prefix. -/
def resetSuffix (key : String) : String :=
  ((stripPrefix key rustfsInternalPrefix).or (stripPrefix key minioInternalPrefix)).getD
    (suffixReplicationReset ++ "-" ++ key)

def persistResetStatuses (env : Runtime) (metaSys : SysMetadata) (statuses : Metadata) :
    SysMetadata :=
  (env.walk.enumerate statuses.entries).foldl
    (fun metaSys entry => insertBytes metaSys (resetSuffix entry.1) (utf8 entry.2)) metaSys

def validTargetDeleteMarkerVersion (arn versionId : String) : Bool :=
  "arn:".toList.isPrefixOf arn.toList && byteLen arn ≤ maxArnLen && !versionId.isEmpty &&
    byteLen versionId ≤ maxVersionIdLen

/-- The least targets in key order are kept, at most `maxEntries` of them. -/
def boundTarget (bounded : Metadata) (entry : String × String) : Metadata :=
  if !validTargetDeleteMarkerVersion entry.1 entry.2 ||
      (maxEntries ≤ bounded.entries.length &&
        bounded.entries.getLast?.any fun largest => largest.1 ≤ entry.1) then
    bounded
  else
    let inserted := bounded.insert entry.1 entry.2
    if maxEntries < inserted.entries.length then inserted.popLast else inserted

def boundedTargets (env : Runtime) (transport versions : Metadata) : Metadata :=
  (env.walk.enumerate transport.entries ++ env.walk.enumerate versions.entries).foldl boundTarget
    .empty

/-- Nothing is merged from a request whose two prefixes disagree. -/
def persistTargetDeleteMarkerVersions (env : Runtime) (metaSys : SysMetadata) (versions : Metadata)
    (transportMetadata : Metadata) : SysMetadata :=
  let (transport, corrupt) := targetDeleteMarkerVersions env.toPlatform transportMetadata
  if corrupt then metaSys
  else
    (boundedTargets env transport versions).entries.foldl (fun metaSys entry =>
      insertBytes metaSys (suffixReplicationDeleteMarkerVersionArnPrefix ++ entry.1)
        (utf8 entry.2)) metaSys

def persistTargets (env : Runtime) (fi : FileInfo) (metaSys : SysMetadata)
    (state : ReplicationState) : SysMetadata :=
  persistTargetDeleteMarkerVersions env (persistResetStatuses env metaSys state.resetStatusesMap)
    state.targetDeleteMarkerVersionIds fi.metadata

def MetaDeleteMarker.fromFileInfo (env : Runtime) (fi : FileInfo) : MetaDeleteMarker :=
  let durable := durableMetadata env fi.metadata
  let freed := if fi.tierFreeVersion then insertBytes durable suffixFreeVersion [] else durable
  let moved := insertTransition fi (!fi.transitionStatus.isEmpty || fi.tierFreeVersion) freed
  { versionId := fi.versionId
    modTime := fi.modTime
    metaSys :=
      match fi.replicationStateInternal with
      | none => moved
      | some state => persistTargets env fi (persistDeleteMarkerReplicationState env moved state)
          state }

def FileMetaVersion.fromFileInfo (env : Runtime) (fi : FileInfo) : FileMetaVersion :=
  if fi.isStorageDeleteMarker then
    { FileMetaVersion.default with
      versionType := .delete
      deleteMarker := some (.fromFileInfo env fi) }
  else
    { FileMetaVersion.default with
      versionType := .object
      object := some (.fromFileInfo env fi) }

namespace MetaObject

def setTransition (env : Runtime) (fi : FileInfo) (object : MetaObject) : MetaObject :=
  let named := insertBytes
    (insertBytes object.metaSys suffixTransitionStatus (utf8 fi.transitionStatus))
    suffixTransitionedObjectname (utf8 fi.transitionedObjname)
  let versioned := match transitionedVersionBytes fi with
    | some version => insertBytes named suffixTransitionedVersionId version
    | none => removeBytes named suffixTransitionedVersionId
  let stated := setTransitionVersionState versioned fi.transitionVersionState fi.metadata
  let tiered := insertBytes stated suffixTransitionTier (utf8 fi.transitionTier)
  { object with
    metaSys := insertOptional tiered suffixTransitionTierDestinationId
      ((getStr env.toPlatform fi.metadata suffixTransitionTierDestinationId).map utf8) }

def removeRestoreHdrs (object : MetaObject) : MetaObject :=
  { object with
    metaUser := ((object.metaUser.remove restoreKey).remove restoreExpiryDaysKey).remove
      restoreRequestDateKey
    metaSys := removeBytes (removeBytes object.metaSys suffixRestoreOperationId)
      suffixRestoreWorkerLock }

def resetInlineData (object : MetaObject) : MetaObject :=
  { object with metaSys := removeBytes object.metaSys suffixInlineData }

def isAsciiHexdigit (byte : UInt8) : Bool :=
  (0x30 ≤ byte && byte ≤ 0x39) || (0x61 ≤ byte && byte ≤ 0x66) || (0x41 ≤ byte && byte ≤ 0x46)

/-- The suffixes a cleanup record takes over from its object. -/
def freeVersionSuffixes : List String :=
  [suffixTransitionTier, suffixTransitionedObjectname, suffixTransitionedVersionId,
    suffixTransitionedVersionState]

def freeVersionMetadata (object : MetaObject) : SysMetadata :=
  freeVersionSuffixes.foldl
    (fun metaSys suffix => insertOptional metaSys suffix (getBytes object.metaSys suffix))
    (insertBytes .empty suffixFreeVersion [])

def freeVersionDestination (env : Runtime) (object : MetaObject) :
    Except Error (Option Bytes) :=
  if containsKeyBytes object.metaSys suffixTransitionTierDestinationId then
    match (getConsistentBytes env.toPlatform object.metaSys
        suffixTransitionTierDestinationId).filter fun value =>
          value.length = 64 && value.all isAsciiHexdigit with
    | some destination => .ok (some destination)
    | none => .error .fileCorrupt
  else .ok none

/-- `Uuid::parse_str` with its error. -/
def parseUuidOr (env : Runtime) (text : String) : Except Error Uuid :=
  match env.parseUuid text with
  | some id => .ok id
  | none => .error (.uuidParse text)

/-- The cleanup record of a transitioned object, if one is due. -/
def initFreeVersion (env : Runtime) (fi : FileInfo) (object : MetaObject) :
    Except Error (Option FileMetaVersion) :=
  if fi.skipTierFreeVersion then .ok none
  else if object.transitionedAway then do
    let id ← parseUuidOr env (fi.tierFreeVersionId env)
    let destination ← object.freeVersionDestination env
    pure (some
      { FileMetaVersion.default with
        versionType := .delete
        deleteMarker := some
          { versionId := some id
            modTime := object.modTime
            metaSys := insertOptional object.freeVersionMetadata suffixTransitionTierDestinationId
              destination } })
  else .ok none

end MetaObject

def suffixShardIntegrity : String := "shard-integrity-v1"
def suffixInlineIntegrity : String := "shard-integrity-inline-v1"
def suffixUploadIntegrity : String := "shard-integrity-upload-v1"

def maxDescriptorBytes : Nat := 1024 * 1024
def maxIntegrityParts : Nat := 10000
def tableHeaderSize : Nat := 32
def partRecordSize : Nat := 64

/-- The letters `RFSI` and the format version. -/
def tableMagic : Bytes := [0x52, 0x46, 0x53, 0x49, 1, 0, 0, 0]

namespace IntegrityLayout

def validate (layout : IntegrityLayout) : Except Error Unit :=
  if layout.data = 0 || layout.data < layout.parity ||
      maxErasureShards < layout.data.toNat + layout.parity.toNat || layout.blockSize = 0 ||
      64 * 1024 * 1024 < layout.blockSize.toNat then
    .error .fileCorrupt
  else .ok ()

/-- `IntegrityLayout::new`. -/
def new (data parity blockSize : UInt64) (legacy : Bool) : Except Error IntegrityLayout :=
  if 2 ^ 16 ≤ data.toNat || 2 ^ 16 ≤ parity.toNat || 2 ^ 32 ≤ blockSize.toNat then
    .error .fileCorrupt
  else
    let layout : IntegrityLayout := ⟨data.toUInt16, parity.toUInt16, blockSize.toUInt32, legacy⟩
    layout.validate.map fun _ => layout

end IntegrityLayout

def divCeil (value unit : Nat) : Nat := (value + unit - 1) / unit

def PartIntegrity.validate (part : PartIntegrity) : Except Error Unit :=
  match part.layout.validate with
  | .error error => .error error
  | .ok _ =>
    if part.number = 0 || maxIntegrityParts < part.number.toNat || part.generation.isNil ||
        2 ^ 63 ≤ part.size.toNat ||
        divCeil part.size.toNat part.layout.blockSize.toNat ≠ part.stripes.toNat then
      .error .fileCorrupt
    else .ok ()

def leAt (bytes : Bytes) (start width : Nat) : Nat := leNat ((bytes.drop start).take width)

def chunksOf (size : Nat) : (count : Nat) → Bytes → List Bytes
  | 0, _ => []
  | count + 1, bytes => bytes.take size :: chunksOf size count (bytes.drop size)

def partOfRecord (layout : IntegrityLayout) (record : Bytes) : PartIntegrity where
  layout := layout
  number := UInt32.ofNat (leAt record 0 4)
  generation := uuidFromBytes ((record.drop 4).take 16)
  size := UInt64.ofNat (leAt record 20 8)
  stripes := UInt32.ofNat (leAt record 28 4)
  root := (record.drop 32).take 32

/-- Every record is valid and the part numbers increase. -/
def decodeRecords (layout : IntegrityLayout) :
    (previous : UInt32) → List Bytes → Except Error (List PartIntegrity)
  | _, [] => .ok []
  | previous, record :: records => do
      let part := partOfRecord layout record
      part.validate
      corruptIf (part.number ≤ previous)
      let parts ← decodeRecords layout part.number records
      pure (part :: parts)

/-- The header of a table is complete, of this version, has no reserved bit set
and is spelled canonically. -/
def tableHeaderOk (env : Runtime) (value : String) (bytes : Bytes) : Bool :=
  tableHeaderSize ≤ bytes.length && bytes.take 8 = tableMagic && leAt bytes 16 1 ≤ 1 &&
    ((bytes.drop 17).take 11).all (· = 0) && env.encodeBase64 bytes = value

def decodeDescriptor (env : Runtime) (value : String) : Except Error (List PartIntegrity) :=
  if maxDescriptorBytes < byteLen value then .error .fileCorrupt
  else
    match env.decodeBase64 value with
    | none => .error .fileCorrupt
    | some bytes =>
      if !tableHeaderOk env value bytes then .error .fileCorrupt
      else
        let count := leAt bytes 28 4
        if count = 0 || maxIntegrityParts < count ||
            bytes.length ≠ tableHeaderSize + count * partRecordSize then
          .error .fileCorrupt
        else do
          let layout : IntegrityLayout :=
            ⟨UInt16.ofNat (leAt bytes 8 2), UInt16.ofNat (leAt bytes 10 2),
              UInt32.ofNat (leAt bytes 12 4), leAt bytes 16 1 = 1⟩
          layout.validate
          decodeRecords layout 0 (chunksOf partRecordSize count (bytes.drop tableHeaderSize))

/-- An inline proof without its table is corrupt. -/
def descriptorFromMetadata (env : Runtime) (metadata : Metadata) :
    Except Error (Option (List PartIntegrity)) :=
  if !containsKeyStr metadata suffixShardIntegrity then
    if containsKeyStr metadata suffixInlineIntegrity then .error .fileCorrupt else .ok none
  else
    match getConsistentStr env.toPlatform metadata suffixShardIntegrity with
    | none => .error .fileCorrupt
    | some value => (decodeDescriptor env value).map some

/-- The value under the exact spellings of a suffix, and that under any other. -/
structure AliasSlots where
  canonical : Option Bytes
  legacy : Option Bytes

def setSlot (slot : Option Bytes) (value : Bytes) : Except Error (Option Bytes) :=
  if slot.any (· ≠ value) then .error .fileCorrupt else .ok (some value)

def isCanonicalKey (key suffix : String) : Bool := key = rustfsKey suffix || key = minioKey suffix

def AliasSlots.store (suffix : String) (slots : AliasSlots) (entry : String × Bytes) :
    Except Error AliasSlots :=
  match stripInternalPrefixPreservingCase entry.1 with
  | none => .ok slots
  | some found =>
    if !eqIgnoreAsciiCase found suffix then .ok slots
    else if isCanonicalKey entry.1 suffix then
      (setSlot slots.canonical entry.2).map fun slot => { slots with canonical := slot }
    else (setSlot slots.legacy entry.2).map fun slot => { slots with legacy := slot }

/-- Two spellings of one kind that differ are corrupt. -/
def aliasSlots (env : Runtime) (metaSys : SysMetadata) (suffix : String) :
    Except Error AliasSlots :=
  (env.walk.enumerate metaSys.entries).foldlM (AliasSlots.store suffix) ⟨none, none⟩

def AliasSlots.either (slots : AliasSlots) : Option Bytes := slots.canonical.or slots.legacy

/-- `merge_consistent`: here the two kinds have to agree as well. -/
def AliasSlots.mergeConsistent (slots : AliasSlots) : Except Error (Option Bytes) :=
  match slots.canonical, slots.legacy with
  | some canonical, some legacy =>
    if canonical ≠ legacy then .error .fileCorrupt else .ok (some canonical)
  | _, _ => .ok slots.either

structure DerivedInternalMetadata where
  checksum : Option Bytes
  partChecksums : Option Bytes
  transitionStatus : Option Bytes
  transitionedObject : Option Bytes
  transitionedVersion : Option Bytes
  transitionedVersionState : Option Bytes
  transitionTier : Option Bytes

/-- The source walks the map once; every failure is `FileCorrupt`, so the suffixes
can be looked at one after the other. -/
def DerivedInternalMetadata.fromMetaSys (env : Runtime) (metaSys : SysMetadata) :
    Except Error DerivedInternalMetadata := do
  let checksum ← aliasSlots env metaSys suffixCrc
  let partChecksums ← aliasSlots env metaSys suffixPartChecksums
  let status ← aliasSlots env metaSys suffixTransitionStatus
  let object ← aliasSlots env metaSys suffixTransitionedObjectname
  let version ← aliasSlots env metaSys suffixTransitionedVersionId
  let state ← aliasSlots env metaSys suffixTransitionedVersionState
  let tier ← aliasSlots env metaSys suffixTransitionTier
  return {
    checksum := checksum.either
    partChecksums := partChecksums.either
    transitionStatus := ← status.mergeConsistent
    transitionedObject := ← object.mergeConsistent
    transitionedVersion := ← version.mergeConsistent
    transitionedVersionState := ← state.mergeConsistent
    transitionTier := ← tier.mergeConsistent }

/-- `filter(!is_empty)`, lossy text, default. -/
def lossyText (env : Runtime) (value : Option Bytes) : String :=
  ((value.filter fun bytes => !bytes.isEmpty).map env.fromUtf8Lossy).getD ""

def maxTransitionVersionLen : Nat := 1024

def transitionVersionStateFromBytes (value : Option Bytes) :
    Except Error TransitionVersionState :=
  match value with
  | none => .ok .unknown
  | some value =>
    if value = utf8 "known-disabled" then .ok .knownDisabled
    else if value = utf8 "suspended-null" then .ok .suspendedNull
    else if value = utf8 "exact" then .ok .exact
    else if value = utf8 "unknown" then .ok .unknown
    else .error .fileCorrupt

def isControl (c : Char) : Bool := c.val < 0x20 || (0x7f ≤ c.val && c.val < 0xa0)

def transitionVersionUsable (env : Runtime) (text : String) : Bool :=
  !text.isEmpty && byteLen text ≤ maxTransitionVersionLen && !text.toList.any isControl &&
    !(env.parseUuid text).any Uuid.isNil

/-- Sixteen bytes are an UUID unless a state says otherwise; anything else is the
provider's own text. -/
def transitionedVersionFromBytes (env : Runtime) (value : Option Bytes)
    (state : TransitionVersionState) : Option String :=
  match value with
  | none => none
  | some value =>
    if value.isEmpty then none
    else if state = .unknown && value.length = 16 then
      if (uuidFromBytes value).isNil then none else some (uuidFromBytes value).text
    else (stringFromUtf8 value).filter (transitionVersionUsable env)

def transitionVersionMetadataValue (env : Runtime) (raw : Bytes) (decoded : Option String) :
    String :=
  decoded.getD (if raw.isEmpty then "" else env.fromUtf8Lossy raw)

def isTransitionVersionMetadataKey (key : String) : Bool :=
  (stripInternalPrefixPreservingCase key).any fun suffix =>
    eqIgnoreAsciiCase suffix suffixTransitionedVersionId

def validateTransitionVersionState (state : TransitionVersionState) (version : Option String) :
    Except Error Unit :=
  let valid := match state with
    | .unknown | .knownDisabled => version.isNone
    | .suspendedNull => version = some "null"
    | .exact => version.any fun value => value ≠ "null"
  if valid then .ok () else .error .fileCorrupt

def checkTransitionVersionState (stored : Bool) (state : TransitionVersionState)
    (version : Option String) : Except Error Unit :=
  if stored then validateTransitionVersionState state version else .ok ()

/-- The state and version of a transition, checked when a state is stored. -/
def transitionVersionOf (env : Runtime) (derived : DerivedInternalMetadata) :
    Except Error (TransitionVersionState × Option String) := do
  let state ← transitionVersionStateFromBytes derived.transitionedVersionState
  let version := transitionedVersionFromBytes env derived.transitionedVersion state
  checkTransitionVersionState derived.transitionedVersionState.isSome state version
  pure (state, version)

def restoreTransitionVersion (env : Runtime) (metaSys : SysMetadata) (version : Option String)
    (metadata : Metadata) : Metadata :=
  (env.walk.enumerate metaSys.entries).foldl (fun metadata entry =>
    if isTransitionVersionMetadataKey entry.1 then
      metadata.insert entry.1 (transitionVersionMetadataValue env entry.2 version)
    else metadata) metadata

structure ReplicationScan where
  state : ReplicationState
  has : Bool

def parseTimestampOrEpoch (env : Runtime) (value : String) : OffsetDateTime :=
  (env.parseReplicationTimestamp value).getD .unixEpoch

def ReplicationScan.step (env : Runtime) (scan : ReplicationScan) (entry : String × String) :
    ReplicationScan :=
  let (key, value) := entry
  if hasInternalSuffix env.toPlatform key suffixPurgestatus then
    ⟨{ scan.state with
        versionPurgeStatusInternal := some value
        purgeTargets := versionPurgeStatusesMap (env.statusPairs value) }, true⟩
  else
    match stripInternalPrefixPreservingCase key with
    | none => scan
    | some subKey =>
      if eqIgnoreAsciiCase subKey suffixReplicaTimestamp then
        ⟨{ scan.state with replicaTimestamp := some (parseTimestampOrEpoch env value) }, true⟩
      else if eqIgnoreAsciiCase subKey suffixReplicaStatus then
        ⟨{ scan.state with replicaStatus := .fromStr value }, true⟩
      else if eqIgnoreAsciiCase subKey suffixReplicationTimestamp then
        ⟨{ scan.state with replicationTimestamp := some (parseTimestampOrEpoch env value) }, true⟩
      else if eqIgnoreAsciiCase subKey suffixReplicationStatus then
        ⟨{ scan.state with
            replicationStatusInternal := some value
            targets := replicationStatusesMap (env.statusPairs value) }, true⟩
      else
        match internalKeyStripSuffixPrefix key suffixReplicationResetArnPrefix with
        | none => scan
        | some arn =>
          ⟨{ scan.state with
              resetStatusesMap :=
                scan.state.resetStatusesMap.insert (targetResetHeader arn) value }, true⟩

def getInternalReplicationState (env : Runtime) (metadata : Metadata) : Option ReplicationState :=
  let scan := (env.walk.enumerate metadata.entries).foldl (ReplicationScan.step env)
    ⟨.default, false⟩
  let (versions, corrupt) := targetDeleteMarkerVersions env.toPlatform metadata
  if scan.has || !versions.isEmpty || corrupt then
    some { scan.state with
      targetDeleteMarkerVersionIds := versions
      targetDeleteMarkerVersionIdsCorrupt := corrupt }
  else none

def amzMetaUnencryptedContentLength : String := "X-Amz-Meta-X-Amz-Unencrypted-Content-Length"
def amzMetaUnencryptedContentMd5 : String := "X-Amz-Meta-X-Amz-Unencrypted-Content-Md5"
def storageClassKey : String := "x-amz-storage-class"
def replicationStatusKey : String := "X-Amz-Replication-Status"

def ErasureAlgo.text : ErasureAlgo → String
  | .invalid => "Invalid"
  | .reedSolomon => "rs-vandermonde"

namespace MetaObject

def partAt (object : MetaObject) (i : Nat) : ObjectPartInfo :=
  let n := object.partNumbers.length
  { ObjectPartInfo.default with
    number := object.partNumbers.getD i 0
    size := object.partSizes.getD i 0
    actualSize := object.partActualSizes.getD i 0
    etag := if object.partEtags.length = n then object.partEtags.getD i "" else ""
    index :=
      if object.partIndices.length = n && !(object.partIndices.getD i []).isEmpty then
        some (object.partIndices.getD i [])
      else none }

/-- Sizes have to be given for every part; tags and indices may be missing. -/
def partInfos (object : MetaObject) : Except Error (List ObjectPartInfo) :=
  let n := object.partNumbers.length
  if n ≠ 0 && (object.partSizes.length ≠ n || object.partActualSizes.length ≠ n) then
    .error .fileCorrupt
  else .ok ((List.range n).map object.partAt)

def requestedParts (allParts : Bool) (object : MetaObject) : Except Error (List ObjectPartInfo) :=
  if allParts then object.partInfos else .ok []

def showUserEntry (entry : String × String) : Bool :=
  entry.1 ≠ amzMetaUnencryptedContentLength && entry.1 ≠ amzMetaUnencryptedContentMd5 &&
    !(entry.1 = storageClassKey && entry.2 = "STANDARD")

def showSysEntry (env : Runtime) (entry : String × Bytes) : Bool :=
  !hasInternalSuffix env.toPlatform entry.1 suffixTierFvId &&
    !hasInternalSuffix env.toPlatform entry.1 suffixTierFvMarker &&
    !(eqIgnoreAsciiCase entry.1 storageClassKey && entry.2 = utf8 "STANDARD") &&
    isInternalKey entry.1

def visibleMetadata (env : Runtime) (object : MetaObject) : Metadata :=
  ((env.walk.enumerate object.metaSys.entries).filter (showSysEntry env)).foldl
    (fun metadata entry => metadata.insert entry.1 ((stringFromUtf8 entry.2).getD ""))
    (object.metaUser.filter showUserEntry)

def erasureInfo (object : MetaObject) : ErasureInfo :=
  { ErasureInfo.default with
    algorithm := object.erasureAlgorithm.text
    dataBlocks := object.erasureM
    parityBlocks := object.erasureN
    blockSize := object.erasureBlockSize
    index := object.erasureIndex
    distribution := object.erasureDist.map UInt8.toUInt64 }

end MetaObject

structure Hydration where
  unclaimed : List UInt64
  parts : List ObjectPartInfo

/-- A part number that does not exist or was already claimed is corrupt. -/
def Hydration.claim (state : Hydration) (entry : UInt64 × List (String × String)) :
    Except Error Hydration :=
  if entry.1 ∉ state.unclaimed || ¬ (entry.2.map Prod.fst).Nodup then .error .fileCorrupt
  else .ok
    { unclaimed := state.unclaimed.erase entry.1
      parts := state.parts.map fun part =>
        if part.number = entry.1 then { part with checksums := some (.ofEntries entry.2) }
        else part }

def FileInfo.hydrateDataMovementPartChecksums (env : Runtime) (fi : FileInfo) :
    Except Error FileInfo :=
  if !(fi.metadata.entries.any fun entry =>
      hasInternalSuffix env.toPlatform entry.1 suffixPartChecksums) then
    .ok fi
  else
    match (getConsistentStr env.toPlatform fi.metadata suffixPartChecksums).bind
        env.parsePartChecksums with
    | none => .error .fileCorrupt
    | some persisted =>
      let numbers := fi.parts.map ObjectPartInfo.number
      if ¬ numbers.Nodup then .error .fileCorrupt
      else (persisted.foldlM Hydration.claim ⟨numbers, fi.parts⟩).map fun state =>
        { fi with parts := state.parts }

def FileInfo.hydrateIf (env : Runtime) (wanted : Bool) (fi : FileInfo) : Except Error FileInfo :=
  if wanted then fi.hydrateDataMovementPartChecksums env else .ok fi

namespace MetaObject

def commitmentMatches (object : MetaObject) (layout : IntegrityLayout)
    (entry : PartIntegrity × Nat) : Bool :=
  entry.1.layout = layout && entry.1.number.toNat = (object.partNumbers.getD entry.2 0).toNat &&
    entry.1.size.toNat = (object.partSizes.getD entry.2 0).toNat

def withIntegrity (parts : List ObjectPartInfo) (commitments : List PartIntegrity) :
    List ObjectPartInfo :=
  List.zipWith (fun part commitment => { part with integrity := some commitment }) parts commitments

def commitIntegrity (env : Runtime) (object : MetaObject) (allParts : Bool) (fi : FileInfo) :
    Except Error FileInfo := do
  match ← descriptorFromMetadata env fi.metadata with
  | none => pure fi
  | some commitments =>
    let layout ← IntegrityLayout.new object.erasureM object.erasureN object.erasureBlockSize
      fi.usesLegacyChecksum
    corruptIf (commitments.length ≠ object.partNumbers.length ||
      commitments.length ≠ object.partSizes.length ||
      !commitments.zipIdx.all (object.commitmentMatches layout))
    pure (if allParts then { fi with parts := withIntegrity fi.parts commitments } else fi)

/-- Everything the information takes from the body before parts are completed. -/
def plainFileInfo (env : Runtime) (object : MetaObject) (volume path : String)
    (derived : DerivedInternalMetadata) (parts : List ObjectPartInfo) : Except Error FileInfo := do
  let visible := object.visibleMetadata env
  let replication := getInternalReplicationState env visible
  let status := (replication.map ReplicationState.compositeReplicationStatus).getD .empty
  let marked := if status.isEmpty then visible else visible.insert replicationStatusKey status.asStr
  let (state, version) ← transitionVersionOf env derived
  pure { FileInfo.default with
    volume := volume
    name := path
    versionId := normalId object.versionId
    deleted := replication.any fun state => !state.compositeVersionPurgeStatus.isEmpty
    transitionStatus := lossyText env derived.transitionStatus
    transitionedObjname := lossyText env derived.transitionedObject
    transitionTier := lossyText env derived.transitionTier
    transitionVersionId := version.bind env.parseUuid
    transitionVersion := version
    transitionVersionState := state
    dataDir := object.dataDir
    modTime := object.modTime
    size := object.size
    metadata := restoreTransitionVersion env object.metaSys version marked
    parts := parts
    erasure := object.erasureInfo
    replicationStateInternal := replication
    checksum := derived.checksum.filter fun bytes => !bytes.isEmpty }

def toFileinfo (env : Runtime) (object : MetaObject) (volume path : String)
    (allParts includePartChecksums : Bool) : Except Error FileInfo := do
  let derived ← DerivedInternalMetadata.fromMetaSys env object.metaSys
  let parts ← object.requestedParts allParts
  let plain ← object.plainFileInfo env volume path derived parts
  let hydrated ← plain.hydrateIf env (allParts && includePartChecksums)
  corruptIf (!object.partNumbers.isEmpty &&
    containsKeyStr hydrated.metadata suffixUploadIntegrity)
  object.commitIntegrity env allParts hydrated

end MetaObject

namespace MetaDeleteMarker

def lossyMetadata (env : Runtime) (marker : MetaDeleteMarker) : Metadata :=
  .ofEntries (marker.metaSys.entries.map fun entry => (entry.1, env.fromUtf8Lossy entry.2))

def plainFileInfo (env : Runtime) (marker : MetaDeleteMarker) (volume path : String) : FileInfo :=
  { FileInfo.default with
    volume := volume
    name := path
    versionId := normalId marker.versionId
    deleted := true
    modTime := marker.modTime
    metadata := marker.lossyMetadata env
    replicationStateInternal := getInternalReplicationState env (marker.lossyMetadata env) }

/-- A cleanup record also shows the remote object it is about. -/
def intoFileinfo (env : Runtime) (marker : MetaDeleteMarker) (volume path : String) :
    Except Error FileInfo :=
  let plain := marker.plainFileInfo env volume path
  if !marker.freeVersion then .ok plain
  else do
    let derived ← DerivedInternalMetadata.fromMetaSys env marker.metaSys
    let (state, version) ← transitionVersionOf env derived
    pure { plain with
      transitionTier := lossyText env derived.transitionTier
      transitionedObjname := lossyText env derived.transitionedObject
      transitionVersionState := state
      transitionVersion := version
      transitionVersionId := version.bind env.parseUuid
      metadata := restoreTransitionVersion env marker.metaSys version
        (insertStr plain.metadata suffixTierFvMarker "") }

end MetaDeleteMarker

def hashAlgorithmOf (algorithm : String) : HashAlgorithm :=
  if algorithm = "sha256" then .sha256
  else if algorithm = "highwayhash256" then .highwayHash256
  else if algorithm = "highwayhash256S" then .highwayHash256S
  else if algorithm = "blake2b" || algorithm = "blake2b512" then .blake2b512
  else if algorithm = "md5" then .md5
  else .highwayHash256S

def MetaObjectV1ChecksumInfo.toChecksumInfo (checksum : MetaObjectV1ChecksumInfo) :
    ChecksumInfo :=
  ⟨checksum.partNumber, hashAlgorithmOf checksum.algorithm, checksum.hash⟩

def MetaObjectV1Erasure.toErasureInfo (erasure : MetaObjectV1Erasure) : ErasureInfo where
  algorithm := erasure.algorithm
  dataBlocks := erasure.dataBlocks
  parityBlocks := erasure.parityBlocks
  blockSize := erasure.blockSize
  index := erasure.index
  distribution := erasure.distribution
  checksums := erasure.checksums.map MetaObjectV1ChecksumInfo.toChecksumInfo

def MetaObjectV1Part.toObjectPartInfo (part : MetaObjectV1Part) : ObjectPartInfo where
  etag := part.etag
  number := part.number
  size := part.size
  actualSize := part.actualSize
  modTime := part.modTime
  index := part.index
  checksums := part.checksums
  error := part.error
  integrity := none

def MetaObjectV1.toFileinfo (env : Runtime) (legacy : MetaObjectV1) (volume path : String) :
    FileInfo :=
  { FileInfo.default with
    volume := volume
    name := path
    versionId := legacy.parsedVersionId env
    modTime := legacy.stat.modTime
    size := legacy.stat.size
    mode := some legacy.stat.mode
    metadata := legacy.metadata
    parts := legacy.parts.map MetaObjectV1Part.toObjectPartInfo
    erasure := legacy.erasure.toErasureInfo
    numVersions := 1
    dataDir := normalId (env.parseUuid legacy.dataDir) }

namespace FileMetaVersion

def bodyFileInfo (env : Runtime) (version : FileMetaVersion) (volume path : String)
    (allParts includePartChecksums : Bool) : Except Error FileInfo :=
  match version.versionType with
  | .invalid | .legacy =>
    match version.legacyObject with
    | some legacy => .ok (legacy.toFileinfo env volume path)
    | none => .ok { FileInfo.default with volume := volume, name := path }
  | .object =>
    (version.object.getD .default).toFileinfo env volume path allParts includePartChecksums
  | .delete => (version.deleteMarker.getD .default).intoFileinfo env volume path

def toFileinfo (env : Runtime) (version : FileMetaVersion) (volume path : String)
    (allParts includePartChecksums : Bool) : Except Error FileInfo :=
  (version.bodyFileInfo env volume path allParts includePartChecksums).map fun fi =>
    { fi with usesLegacyChecksum := version.usesLegacyChecksum }

def intoFileinfo (env : Runtime) (version : FileMetaVersion) (volume path : String)
    (allParts : Bool) : Except Error FileInfo :=
  version.toFileinfo env volume path allParts true

end FileMetaVersion

def FileMetaShallowVersion.toFileinfo (env : Runtime) (version : FileMetaShallowVersion)
    (volume path : String) (allParts includePartChecksums : Bool) : Except Error FileInfo := do
  let body ← version.parseVersionMeta env
  body.toFileinfo env volume path allParts includePartChecksums

end Rustfs.Filemeta
