import Rustfs.Filemeta.FileMetaCodec
import Rustfs.Filemeta.VersionBody
import Rustfs.Filemeta.Replication
import Rustfs.Library.Utf8
import Rustfs.Library.XxHash

/-!
# File information

`FileInfo` is the request and the answer of every version operation. This module holds
the record, the checks a request passes before it may change a version list, and the
restore header. `Runtime` is what the crate takes from elsewhere: the clock, hashing,
date, UUID and JSON parsing, and the decoder of the older version bodies. The serde
forms of the record are left out.
-/

namespace Rustfs.Filemeta

open Library Library.MessagePack Utils

structure Runtime extends Platform where
  hash : Hash
  now : Int
  objectMaxVersions : Nat
  fromUtf8Lossy : Bytes → String
  parseUuid : String → Option Uuid
  parseReplicationTimestamp : String → Option OffsetDateTime
  formatReplicationTimestamp : OffsetDateTime → String
  parseRestoreExpiryDate : String → Option OffsetDateTime
  /-- The captures of the `arn=status;` expression. -/
  statusPairs : String → List (String × String)
  parsePartChecksums : String → Option (List (UInt64 × List (String × String)))
  decodeBase64 : String → Option Bytes
  encodeBase64 : Bytes → String
  /-- The `rmp_serde` decoders that `FileMetaVersion::try_from` falls back to. -/
  legacyVersion : Bytes → Except Error FileMetaVersion

def hexValue (c : Char) : Option Nat :=
  if '0' ≤ c ∧ c ≤ '9' then some (c.toNat - 48)
  else if 'a' ≤ c ∧ c ≤ 'f' then some (c.toNat - 87)
  else if 'A' ≤ c ∧ c ≤ 'F' then some (c.toNat - 55)
  else none

/-- A hyphenated UUID, read without looking at where the hyphens stand. -/
def parseHyphenated (text : String) : Option Uuid :=
  let digits := text.toList.filter (· ≠ '-')
  if text.length = 36 ∧ digits.length = 32 then
    (digits.mapM hexValue).map fun values =>
      BitVec.ofNat 128 (values.foldl (fun value digit => value * 16 + digit) 0)
  else none

/-- A runtime for evaluations on fixed inputs that carry no dates, JSON, base64 or
bytes of older formats. -/
def Runtime.sample : Runtime where
  walk := .sorted
  toLowercase := asciiLowercase
  lowercaseAscii _ _ := rfl
  hash := XxHash.xxh64 0
  now := 1700000000
  objectMaxVersions := 9223372036854775807
  fromUtf8Lossy bytes := (stringFromUtf8 bytes).getD "\uFFFD"
  parseUuid := parseHyphenated
  parseReplicationTimestamp _ := none
  formatReplicationTimestamp _ := "1970-01-01T00:00:00Z"
  parseRestoreExpiryDate _ := none
  statusPairs _ := []
  parsePartChecksums _ := none
  decodeBase64 _ := none
  encodeBase64 _ := ""
  legacyVersion bytes := .error (.rmpSerdeDecode bytes)

structure IntegrityLayout where
  data : UInt16
  parity : UInt16
  blockSize : UInt32
  legacy : Bool
  deriving DecidableEq

structure PartIntegrity where
  layout : IntegrityLayout
  number : UInt32
  generation : Uuid
  size : UInt64
  stripes : UInt32
  root : Bytes
  deriving DecidableEq

structure ObjectPartInfo where
  etag : String
  number : UInt64
  size : UInt64
  actualSize : Int64
  modTime : Option OffsetDateTime
  index : Option Bytes
  checksums : Option Metadata
  error : Option String
  integrity : Option PartIntegrity
  deriving DecidableEq

def ObjectPartInfo.default : ObjectPartInfo := ⟨"", 0, 0, 0, none, none, none, none, none⟩

inductive HashAlgorithm
  | sha256
  | highwayHash256
  | highwayHash256S
  | highwayHash256SLegacy
  | blake2b512
  | md5
  | none
  deriving DecidableEq

structure ChecksumInfo where
  partNumber : UInt64
  algorithm : HashAlgorithm
  hash : Bytes
  deriving DecidableEq

structure ErasureInfo where
  algorithm : String
  dataBlocks : UInt64
  parityBlocks : UInt64
  blockSize : UInt64
  index : UInt64
  distribution : List UInt64
  checksums : List ChecksumInfo
  deriving DecidableEq

def ErasureInfo.default : ErasureInfo := ⟨"", 0, 0, 0, 0, [], []⟩

inductive TransitionVersionState
  | unknown
  | knownDisabled
  | suspendedNull
  | exact
  deriving DecidableEq

def TransitionVersionState.asStr : TransitionVersionState → String
  | unknown => "unknown"
  | knownDisabled => "known-disabled"
  | suspendedNull => "suspended-null"
  | exact => "exact"

structure FileInfo where
  volume : String
  name : String
  versionId : Option Uuid
  isLatest : Bool
  deleted : Bool
  transitionStatus : String
  transitionedObjname : String
  transitionTier : String
  transitionVersionId : Option Uuid
  transitionVersion : Option String
  transitionVersionState : TransitionVersionState
  expireRestored : Bool
  dataDir : Option Uuid
  modTime : Option OffsetDateTime
  size : Int64
  mode : Option UInt32
  writtenByVersion : Option UInt64
  metadata : Metadata
  parts : List ObjectPartInfo
  erasure : ErasureInfo
  markDeleted : Bool
  replicationStateInternal : Option ReplicationState
  data : Option Bytes
  numVersions : Nat
  successorModTime : Option OffsetDateTime
  fresh : Bool
  idx : Nat
  checksum : Option Bytes
  versioned : Bool
  usesLegacyChecksum : Bool
  overwriteTierFreeVersionId : Option Uuid
  deriving DecidableEq

def FileInfo.default : FileInfo where
  volume := ""
  name := ""
  versionId := none
  isLatest := false
  deleted := false
  transitionStatus := ""
  transitionedObjname := ""
  transitionTier := ""
  transitionVersionId := none
  transitionVersion := none
  transitionVersionState := .unknown
  expireRestored := false
  dataDir := none
  modTime := none
  size := 0
  mode := none
  writtenByVersion := none
  metadata := .empty
  parts := []
  erasure := .default
  markDeleted := false
  replicationStateInternal := none
  data := none
  numVersions := 0
  successorModTime := none
  fresh := false
  idx := 0
  checksum := none
  versioned := false
  usesLegacyChecksum := false
  overwriteTierFreeVersionId := none

def trimMatches (matched : Char → Bool) (text : String) : String :=
  String.ofList (((text.toList.dropWhile matched).reverse.dropWhile matched).reverse)

/-- `splitn(2, separator)`. -/
def splitOnce (separator : Char) (text : String) : String × Option String :=
  match text.toList.dropWhile (· ≠ separator) with
  | [] => (text, none)
  | _ :: rest => (String.ofList (text.toList.takeWhile (· ≠ separator)), some (String.ofList rest))

structure RestoreStatus where
  isRestoreInProgress : Option Bool
  restoreExpiryDate : Option OffsetDateTime

def parseRestoreObjStatus (env : Runtime) (restoreHdr : String) : Option RestoreStatus :=
  let (head, tail) := splitOnce ',' restoreHdr
  match splitOnce '=' head with
  | (_, none) => none
  | (name, some progress) =>
    if trimMatches isWhitespace name ≠ "ongoing-request" then none
    else if (progress = "true" || progress = "\"true\"") && tail.isNone then
      some ⟨some true, none⟩
    else if progress = "false" || progress = "\"false\"" then
      match tail.map (splitOnce '=') with
      | some (name, some expiry) =>
        if trimMatches isWhitespace name ≠ "expiry-date" then none
        else
          (env.parseRestoreExpiryDate (trimMatches (· = '"') expiry)).map fun date =>
            ⟨some false, some date⟩
      | _ => none
    else none

def RestoreStatus.onDisk (env : Runtime) (status : RestoreStatus) : Bool :=
  if status.isRestoreInProgress.getD false then false
  else
    status.restoreExpiryDate.any fun expiry =>
      env.now < expiry.unixTimestampNanos / nanosPerSecond

def restoreKey : String := "x-amz-restore"
def restoreExpiryDaysKey : String := "X-Amz-Restore-Expiry-Days"
def restoreRequestDateKey : String := "X-Amz-Restore-Request-Date"

def isRestoredObjectOnDisk (env : Runtime) (metadata : Metadata) : Bool :=
  ((metadata.get restoreKey).bind (parseRestoreObjStatus env)).any (RestoreStatus.onDisk env)

def corruptIf (corrupt : Bool) : Except Error Unit :=
  if corrupt then .error .fileCorrupt else .ok ()

def maxErasureShards : Nat := 16
def maxFileinfoParts : Nat := 10000
def maxFileinfoChecksums : Nat := 10000

def checkedCalcShardSize (blockSize dataShards : Nat) : Option Nat :=
  if dataShards = 0 then none
  else
    let size := (blockSize + dataShards - 1) / dataShards + 1
    if size < 2 ^ 64 then some (size / 2 * 2) else none

structure ValidatedErasureLayout where
  dataBlocks : Nat
  blockSize : Nat
  shardSize : Nat

/-- The size is below `2 ^ 63`, so that it is also an `i64`. -/
def ValidatedErasureLayout.shardFileSize (layout : ValidatedErasureLayout) (totalLength : Nat) :
    Option Nat :=
  (checkedCalcShardSize (totalLength % layout.blockSize) layout.dataBlocks).bind fun lastShard =>
    let size := totalLength / layout.blockSize * layout.shardSize + lastShard
    if size < 2 ^ 63 then some size else none

def isValidDistribution (distribution : List UInt64) (n : Nat) : Bool :=
  n ≠ 0 && n ≤ maxErasureShards && distribution.length = n &&
    distribution.all (fun slot => 1 ≤ slot.toNat && slot.toNat ≤ n) && distribution.Nodup

def partNumberOk (number : UInt64) : Bool := 1 ≤ number.toNat && number.toNat ≤ maxFileinfoParts

namespace FileInfo

def tierFreeVersion (fi : FileInfo) : Bool := containsKeyStr fi.metadata suffixTierFvMarker

def skipTierFreeVersion (fi : FileInfo) : Bool := containsKeyStr fi.metadata suffixTierSkipFvId

def tierFreeVersionId (env : Runtime) (fi : FileInfo) : String :=
  (getStr env.toPlatform fi.metadata suffixTierFvId).getD ""

def versionPurgeStatus (fi : FileInfo) : VersionPurgeStatusType :=
  (fi.replicationStateInternal.map ReplicationState.compositeVersionPurgeStatus).getD .empty

def deleteMarkerReplicationStatus (fi : FileInfo) : ReplicationStatusType :=
  if fi.deleted then
    (fi.replicationStateInternal.map ReplicationState.compositeReplicationStatus).getD .empty
  else .empty

def deleteMarkerIncarnation (env : Runtime) (fi : FileInfo) : Option Uuid :=
  if !fi.deleted || fi.tierFreeVersion then none
  else
    ((getConsistentStr env.toPlatform fi.metadata suffixBucketIncarnationId).bind
      env.parseUuid).filter fun id => !id.isNil

def validateErasureGeometryWithIndex (fi : FileInfo) (index : UInt64) :
    Except Error ValidatedErasureLayout :=
  let data := fi.erasure.dataBlocks.toNat
  let parity := fi.erasure.parityBlocks.toNat
  let block := fi.erasure.blockSize.toNat
  let total := data + parity
  if data = 0 || block = 0 || data < parity || maxErasureShards < total || index = 0 ||
      total < index.toNat || !isValidDistribution fi.erasure.distribution total then
    .error .fileCorrupt
  else
    match checkedCalcShardSize block data with
    | none => .error .fileCorrupt
    | some shardSize =>
      let layout : ValidatedErasureLayout := ⟨data, block, shardSize⟩
      if 2 ^ 63 ≤ shardSize || 2 ^ 63 ≤ block || fi.size < 0 ||
          (layout.shardFileSize fi.size.toInt.toNat).isNone then
        .error .fileCorrupt
      else .ok layout

def validateErasureGeometry (fi : FileInfo) : Except Error ValidatedErasureLayout :=
  fi.validateErasureGeometryWithIndex fi.erasure.index

def validateCollectionBounds (fi : FileInfo) : Except Error Unit :=
  if maxFileinfoParts < fi.parts.length || maxFileinfoChecksums < fi.erasure.checksums.length ||
      maxErasureShards < fi.erasure.distribution.length then
    .error .fileCorrupt
  else .ok ()

def partSizesOk (layout : ValidatedErasureLayout) (part : ObjectPartInfo) : Bool :=
  part.size.toNat < 2 ^ 63 && (layout.shardFileSize part.size.toNat).isSome &&
    (part.actualSize < 0 || (layout.shardFileSize part.actualSize.toInt.toNat).isSome)

/-- The bitmaps of the source hold the part numbers seen so far. -/
def validateCollectionContents (fi : FileInfo) (layout : Option ValidatedErasureLayout) :
    Except Error Unit :=
  let numbers := fi.parts.map ObjectPartInfo.number
  let checksums := fi.erasure.checksums.map ChecksumInfo.partNumber
  if (layout.isSome && 0 < fi.size && fi.parts.isEmpty) ||
      !(layout.all fun layout => fi.parts.all (partSizesOk layout)) ||
      !(numbers.all partNumberOk && numbers.Nodup) ||
      !(checksums.all (fun number => number ∈ numbers) && checksums.Nodup) then
    .error .fileCorrupt
  else .ok ()

def erasureEmpty (erasure : ErasureInfo) (index : UInt64) : Bool :=
  erasure.algorithm.isEmpty && erasure.dataBlocks = 0 && erasure.parityBlocks = 0 &&
    erasure.blockSize = 0 && erasure.index = index && erasure.distribution.isEmpty &&
    erasure.checksums.isEmpty

def validateDeleteMarkerShape (fi : FileInfo) (expectedIndex : UInt64) (allowNilVersionId : Bool) :
    Except Error Unit :=
  let storedFreeVersion := containsKeyStr fi.metadata suffixFreeVersion
  if fi.deleted &&
      (fi.modTime.any fun time => OffsetDateTime.unixEpoch < time) &&
      (allowNilVersionId || !fi.versionId.any Uuid.isNil) &&
      !fi.transitionVersionId.any Uuid.isNil && !fi.transitionVersion.any String.isEmpty &&
      fi.size = 0 && fi.dataDir.isNone && fi.mode.isNone && fi.writtenByVersion.isNone &&
      fi.data.isNone && fi.checksum.isNone && fi.parts.isEmpty &&
      erasureEmpty fi.erasure expectedIndex && storedFreeVersion = fi.tierFreeVersion &&
      !(storedFreeVersion && (fi.transitionTier.isEmpty || fi.transitionedObjname.isEmpty)) then
    .ok ()
  else .error .fileCorrupt

def isStorageDeleteMarker (fi : FileInfo) : Bool :=
  match fi.validateDeleteMarkerShape 0 true with
  | .ok _ => true
  | .error _ => false

def isCanonicalDeleteMarker (fi : FileInfo) : Bool :=
  match fi.validateDeleteMarkerShape 0 false with
  | .ok _ => true
  | .error _ => false

def hasValidErasureGeometry (fi : FileInfo) : Bool :=
  match fi.validateErasureGeometry with
  | .ok _ => true
  | .error _ => false

def hasValidMetadataShape (fi : FileInfo) : Bool :=
  fi.hasValidErasureGeometry || fi.isCanonicalDeleteMarker

def getEtag (fi : FileInfo) : Option String := fi.metadata.get "etag"

def isCompressed (fi : FileInfo) : Bool := containsKeyStr fi.metadata suffixCompression

def validateTierFreeVersionDeleteShape (os : Platform) (fi : FileInfo) : Except Error Unit :=
  if fi.deleted && fi.tierFreeVersion && (fi.versionId.any fun id => !id.isNil) &&
      fi.modTime.isNone && !fi.isLatest && fi.transitionStatus.isEmpty &&
      fi.transitionedObjname.isEmpty && fi.transitionTier.isEmpty &&
      fi.transitionVersionId.isNone && fi.transitionVersion.isNone && !fi.expireRestored &&
      fi.size = 0 && fi.dataDir.isNone && fi.mode.isNone && fi.writtenByVersion.isNone &&
      !fi.markDeleted && fi.replicationStateInternal.isNone && fi.data.isNone &&
      fi.numVersions = 0 && fi.successorModTime.isNone && !fi.fresh && fi.idx = 0 &&
      fi.checksum.isNone && !fi.versioned && !fi.usesLegacyChecksum && fi.parts.isEmpty &&
      !fi.metadata.isEmpty && fi.metadata.entries.length ≤ 2 &&
      (fi.metadata.entries.all fun entry =>
        hasInternalSuffix os entry.1 suffixTierFvMarker && entry.2.isEmpty) &&
      erasureEmpty fi.erasure 0 then
    .ok ()
  else .error .fileCorrupt

inductive ValidationMode
  | requireErasure
  | deleteOnly

def transitionStateValid (fi : FileInfo) : Bool :=
  match fi.transitionVersionState with
  | .unknown => true
  | .knownDisabled => fi.transitionVersion.isNone && fi.transitionVersionId.isNone
  | .suspendedNull => fi.transitionVersion = some "null" && fi.transitionVersionId.isNone
  | .exact => fi.transitionVersion.any fun version => version ≠ "null" && !version.isEmpty

/-- A transition version and its UUID form have to agree when both are given. -/
def transitionVersionsAgree (env : Runtime) (fi : FileInfo) : Bool :=
  match fi.transitionVersion, fi.transitionVersionId with
  | some version, some id => env.parseUuid version = some id
  | _, _ => true

def validateLayout (fi : FileInfo) :
    ValidationMode → Except Error (Option ValidatedErasureLayout)
  | .requireErasure => fi.validateErasureGeometry.map some
  | .deleteOnly => (fi.validateDeleteMarkerShape 0 false).map fun _ => none

def validate (env : Runtime) (fi : FileInfo) (mode : ValidationMode) :
    Except Error (Option ValidatedErasureLayout) := do
  fi.validateCollectionBounds
  corruptIf (!fi.transitionVersionsAgree env || !fi.transitionStateValid)
  let layout ← fi.validateLayout mode
  fi.validateCollectionContents layout
  pure layout

def validateForMetadataRead (env : Runtime) (fi : FileInfo) : Except Error Unit :=
  match fi.validate env .requireErasure with
  | .ok _ => .ok ()
  | .error _ => (fi.validate env .deleteOnly).map fun _ => ()

def validateForDeleteOperation (env : Runtime) (fi : FileInfo) : Except Error Unit :=
  match fi.validateCollectionBounds with
  | .error error => .error error
  | .ok _ =>
    if fi.deleted && fi.tierFreeVersion then
      fi.validateTierFreeVersionDeleteShape env.toPlatform
    else if fi.deleted then (fi.validate env .deleteOnly).map fun _ => ()
    else fi.validateCollectionContents none

end FileInfo

end Rustfs.Filemeta
