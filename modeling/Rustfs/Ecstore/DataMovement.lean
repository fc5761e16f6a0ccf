import Rustfs.Filemeta.VersionFrom

/-!
# Object infos and their identity across pools

`ObjectInfo::from_file_info` of `ecstore/src/object_api/types.rs`: what the cross-pool merge of
listings and data movement compare of a version. Bucket, name, content type and the other fields
that no comparison reads are left out.

`is_equivalent_data_movement_object_identity` of `ecstore/src/data_movement/mod.rs`, its
counterpart for delete markers of `ecstore/src/store/object.rs`, and the comparison of the remote
object that a free version refers to (`ecstore/src/bucket/lifecycle/bucket_lifecycle_ops.rs`).
-/

namespace Rustfs.Ecstore

open Filemeta Library Utils

/-- The date and number parsers of the crates that `ObjectInfo` is made with. -/
structure InfoHost extends Runtime where
  parseExpires : String → Option OffsetDateTime
  parseI64 : String → Option Int64
  uuidToString : Uuid → String

structure TransitionedObject where
  name : String
  versionId : String
  tier : String
  freeVersion : Bool
  status : String
  deriving DecidableEq

structure ObjectInfo where
  versionId : Option Uuid
  dataDir : Option Uuid
  deleteMarker : Bool
  modTime : Option OffsetDateTime
  size : Int64
  parts : List ObjectPartInfo
  userTags : String
  expires : Option OffsetDateTime
  etag : Option String
  userDefined : Metadata
  transitionedObject : TransitionedObject
  transitionVersionState : TransitionVersionState
  checksum : Option Bytes
  storageClass : String
  replicationStatusInternal : Option String
  replicationStatus : ReplicationStatusType
  versionPurgeStatusInternal : Option String
  versionPurgeStatus : VersionPurgeStatusType
  deriving DecidableEq

def amzObjectTagging : String := "X-Amz-Tagging"

def effectiveClass (storedClass transitionedTier : Option String) : String :=
  match transitionedTier.filter fun tier => !tier.isEmpty with
  | some tier => tier
  | none => if storedClass = some "REDUCED_REDUNDANCY" then "REDUCED_REDUNDANCY" else "STANDARD"

def removeStandardStorageClass (metadata : Metadata) : Metadata :=
  if metadata.get Filemeta.storageClassKey = some "STANDARD" then metadata.remove Filemeta.storageClassKey else metadata

def cleanMetadata (metadata : Metadata) : Metadata :=
  ["md5Sum", "etag", "expires", amzObjectTagging, "last-modified"].foldl
    (fun cleaned key => cleaned.remove key) (removeStandardStorageClass metadata)

def infoReplicationStatus (fi : FileInfo) : ReplicationStatusType :=
  let status := (fi.replicationStateInternal.map ReplicationState.compositeReplicationStatus).getD .empty
  if status = .empty && fi.metadata.get Filemeta.replicationStatusKey = some "REPLICA" then .replica else status

namespace ObjectInfo

/-- `from_file_info` for a versioned listing: a version without an id is the null version. -/
def fromFileInfo (host : InfoHost) (fi : FileInfo) : ObjectInfo where
  versionId := some (fi.versionId.getD 0)
  dataDir := fi.dataDir
  deleteMarker := fi.deleted
  modTime := fi.modTime
  size := fi.size
  parts := fi.parts
  userTags := (fi.metadata.get amzObjectTagging).getD ""
  expires := (fi.metadata.get "expires").bind host.parseExpires
  etag := fi.metadata.get "etag"
  userDefined := cleanMetadata fi.metadata
  transitionedObject :=
    { name := fi.transitionedObjname
      versionId := (fi.transitionVersion.or (fi.transitionVersionId.map host.uuidToString)).getD ""
      tier := fi.transitionTier
      freeVersion := fi.tierFreeVersion
      status := fi.transitionStatus }
  transitionVersionState := fi.transitionVersionState
  checksum := fi.checksum
  storageClass := effectiveClass (fi.metadata.get Filemeta.storageClassKey)
    (if fi.transitionStatus = transitionComplete && !fi.transitionTier.isEmpty then
      some fi.transitionTier else none)
  replicationStatusInternal := fi.replicationStateInternal.bind fun state =>
    state.replicationStatusInternal
  replicationStatus := infoReplicationStatus fi
  versionPurgeStatusInternal := fi.replicationStateInternal.bind fun state =>
    state.versionPurgeStatusInternal
  versionPurgeStatus := fi.versionPurgeStatus

def isCompressed (info : ObjectInfo) : Bool := containsKeyStr info.userDefined suffixCompression

def getCaseInsensitive (host : InfoHost) (metadata : Metadata) (key : String) : Option String :=
  (metadata.get key).or
    (((host.walk.enumerate metadata.entries).find? fun entry =>
      eqIgnoreAsciiCase entry.1 key).map Prod.snd)

def suffixActualSize : String := "actual-size"

def ssecOriginalSize : String := "x-amz-server-side-encryption-customer-original-size"

/-- A size that does not parse is an error. -/
def encryptionOriginalSize (host : InfoHost) (metadata : Metadata) : Option (Option Int64) :=
  match (((getCaseInsensitive host metadata rustfsEncryptionOriginalSize).or
      (getCaseInsensitive host metadata ssecOriginalSize)).or
      (getStr host.toPlatform metadata suffixActualSize)).filter fun size => !size.isEmpty with
  | none => some none
  | some size => (host.parseI64 size).map some

/-- The sum of the parts' sizes, -1 where one is unknown, none where one is negative or the sum
is no `i64`. -/
def sumPartSizes : List ObjectPartInfo → Option (Int × Bool)
  | [] => some (0, false)
  | part :: rest => (sumPartSizes rest).bind fun result =>
    if part.actualSize = -1 then some (result.1, true)
    else if 0 ≤ part.actualSize then
      if part.actualSize.toInt + result.1 < 2 ^ 63 then
        some (part.actualSize.toInt + result.1, result.2)
      else none
    else none

/-- `get_actual_size` of an info whose own `actual_size` is 0. -/
def getActualSize (host : InfoHost) (info : ObjectInfo) : Option Int64 :=
  if info.isCompressed then
    match (getStr host.toPlatform info.userDefined suffixActualSize).filter fun size =>
        !size.isEmpty with
    | some size => host.parseI64 size
    | none =>
      match sumPartSizes info.parts with
      | none => none
      | some (sum, unknown) =>
        if unknown then some (-1)
        else if sum = 0 && sum ≠ info.size.toInt then none
        else some (Int64.ofInt sum)
  else
    match encryptionOriginalSize host info.userDefined with
    | none => none
    | some (some size) => some size
    | some none => some info.size

end ObjectInfo

def suffixDataMoved : String := "data-moved"
def suffixDataMovedTags : String := "data-moved-tags"
def suffixDataMovementUpload : String := "data-movement-upload"
def suffixCompressionSize : String := "compression-size"
def encryptedPartLayoutQuorumSuffix : String := "encrypted-part-layout-quorum-v1"
def rustfsMultipartChecksum : String := "x-rustfs-multipart-checksum"
def rustfsMultipartChecksumType : String := "x-rustfs-multipart-checksum-type"

namespace DataMovement

def effectivePartActualSize (part : ObjectPartInfo) : Option Int :=
  if part.actualSize ≠ 0 then some part.actualSize.toInt
  else if part.size.toNat < 2 ^ 63 then some part.size.toNat
  else none

/-- A target without a compression index is fine. -/
def isEquivalentPart (source target : ObjectPartInfo) : Bool :=
  source.number = target.number && source.etag = target.etag && source.size = target.size &&
    (effectivePartActualSize source).isSome &&
    effectivePartActualSize source = effectivePartActualSize target &&
    (target.index.isNone || source.index = target.index) &&
    source.checksums.filter (fun checksums => !checksums.isEmpty) =
      target.checksums.filter fun checksums => !checksums.isEmpty

def areEquivalentParts (source target : List ObjectPartInfo) : Bool :=
  source.length = target.length && (source.map ObjectPartInfo.number).Nodup &&
    (target.map ObjectPartInfo.number).Nodup &&
    source.all fun part => (target.find? fun other => other.number = part.number).any fun other =>
      isEquivalentPart part other

def isInternalMetadata (key suffix : String) : Bool :=
  (stripInternalPrefixPreservingCase key).any fun candidate => eqIgnoreAsciiCase candidate suffix

def isCanonicalInternalMetadata (key suffix : String) : Bool :=
  key = rustfsKey suffix || key = minioKey suffix

/-- The marker fits the data directory: absent, or present with the directory's id. -/
def layoutMarkerPresence (host : InfoHost) (info : ObjectInfo) : Option Bool :=
  if !containsKeyStr info.userDefined encryptedPartLayoutQuorumSuffix then some false
  else
    match info.dataDir.filter fun dataDir => !dataDir.isNil with
    | none => none
    | some dataDir =>
      let markers := info.userDefined.entries.filter fun entry =>
        hasInternalSuffix host.toPlatform entry.1 encryptedPartLayoutQuorumSuffix
      if !markers.isEmpty && markers.all fun entry => entry.2 = host.uuidToString dataDir then some true
      else none

def markerPresence (info : ObjectInfo) (suffix : String) (fits : String → Bool) (counts : Bool) :
    Option Bool :=
  let markers := info.userDefined.entries.filter fun entry => isInternalMetadata entry.1 suffix
  if markers.all fun entry => fits entry.2 then some (counts && !markers.isEmpty) else none

def sizeMarkerPresence (host : InfoHost) (info : ObjectInfo) (suffix : String) (expected : Int64) :
    Option Bool :=
  markerPresence info suffix (fun value => host.parseI64 value = some expected) true

def checksumMarkerPresence (info : ObjectInfo) : Option Bool :=
  match info.checksum.filter fun checksum => !checksum.isEmpty with
  | none => markerPresence info suffixCrc String.isEmpty false
  | some checksum => markerPresence info suffixCrc
      (fun value => value = (stringFromUtf8 checksum).getD "") true

/-- The source may lack a marker that the target has, not the other way round. -/
def isCompatibleMarkerPresence : Option Bool → Option Bool → Bool
  | some false, some _ => true
  | some true, some true => true
  | _, _ => false

def isEmptyTransitionVersion (host : InfoHost) (value : String) : Bool :=
  value.isEmpty || value.toList = List.replicate 16 (Char.ofNat 0) || host.parseUuid value = some 0

def rewrittenTransitionFields (info : ObjectInfo) : List (String × Option String) :=
  [(suffixTransitionStatus, some info.transitionedObject.status),
    (suffixTransitionedObjectname, some info.transitionedObject.name),
    (suffixTransitionedVersionId, some info.transitionedObject.versionId),
    (suffixTransitionedVersionState,
      if info.transitionVersionState ≠ .unknown then some info.transitionVersionState.asStr else none),
    (suffixTransitionTier, some info.transitionedObject.tier)]

def isRewrittenTransitionMetadata (host : InfoHost) (info : ObjectInfo) (key : String) : Bool :=
  (rewrittenTransitionFields info).any fun field =>
    let preservesUnusableVersion := field.1 = suffixTransitionedVersionId && field.2 = some "" &&
      (info.userDefined.get key).any fun value => !isEmptyTransitionVersion host value
    (isCanonicalInternalMetadata key field.1 && !preservesUnusableVersion) ||
      field.2.any fun expected => !expected.isEmpty && isInternalMetadata key field.1 &&
        getConsistentStr host.toPlatform info.userDefined field.1 = some expected

def isRewrittenMetadata (host : InfoHost) (info : ObjectInfo) (normalizeCompressionSize : Bool)
    (key : String) : Bool :=
  ([suffixDataMoved, suffixDataMovedTags, suffixDataMovementUpload, ObjectInfo.suffixActualSize,
      suffixCrc, suffixPartChecksums, encryptedPartLayoutQuorumSuffix].any fun suffix =>
        isInternalMetadata key suffix) ||
    isRewrittenTransitionMetadata host info key || key = rustfsMultipartChecksum ||
    key = rustfsMultipartChecksumType ||
    (normalizeCompressionSize && isInternalMetadata key suffixCompressionSize)

def keepsMetadata (host : InfoHost) (normalizeCompressionSize : Bool) (source target : ObjectInfo) :
    Bool :=
  source.userDefined.entries.all fun entry =>
    isRewrittenMetadata host source normalizeCompressionSize entry.1 ||
      target.userDefined.get entry.1 = some entry.2

def isEquivalentMetadata (host : InfoHost) (source target : ObjectInfo)
    (sourceActualSize targetActualSize : Int64) : Bool :=
  let normalizeCompressionSize := source.isCompressed && target.isCompressed
  isCompatibleMarkerPresence
      (sizeMarkerPresence host source ObjectInfo.suffixActualSize sourceActualSize)
      (sizeMarkerPresence host target ObjectInfo.suffixActualSize targetActualSize) &&
    isCompatibleMarkerPresence (checksumMarkerPresence source) (checksumMarkerPresence target) &&
    (!normalizeCompressionSize || isCompatibleMarkerPresence
      (sizeMarkerPresence host source suffixCompressionSize source.size)
      (sizeMarkerPresence host target suffixCompressionSize target.size)) &&
    (match layoutMarkerPresence host source, layoutMarkerPresence host target with
      | some sourceLayout, some targetLayout => !(sourceLayout || targetLayout) ||
          ((source.dataDir.any fun dataDir => !dataDir.isNil) &&
            target.dataDir.any fun dataDir => !dataDir.isNil)
      | _, _ => false) &&
    keepsMetadata host normalizeCompressionSize source target &&
    keepsMetadata host normalizeCompressionSize target source

/-- `is_equivalent_data_movement_object_identity` with mod times and part checksums. -/
def isEquivalentObjectIdentity (host : InfoHost) (source target : ObjectInfo) : Bool :=
  match source.getActualSize host, target.getActualSize host with
  | some sourceActualSize, some targetActualSize =>
    source.versionId = target.versionId && source.deleteMarker = target.deleteMarker &&
      source.size = target.size && sourceActualSize = targetActualSize &&
      source.etag = target.etag && source.checksum = target.checksum &&
      source.modTime = target.modTime && source.storageClass = target.storageClass &&
      isEquivalentMetadata host source target sourceActualSize targetActualSize &&
      source.userTags = target.userTags && source.expires = target.expires &&
      source.replicationStatusInternal = target.replicationStatusInternal &&
      source.replicationStatus = target.replicationStatus &&
      source.versionPurgeStatusInternal = target.versionPurgeStatusInternal &&
      source.versionPurgeStatus = target.versionPurgeStatus &&
      source.transitionedObject = target.transitionedObject &&
      source.transitionVersionState = target.transitionVersionState &&
      areEquivalentParts source.parts target.parts
  | _, _ => false

def canonicalSuffix (suffix : String) : String :=
  (([suffixReplicaTimestamp, suffixReplicaStatus, suffixReplicationTimestamp,
      suffixReplicationStatus, suffixPurgestatus].find? fun candidate =>
        eqIgnoreAsciiCase suffix candidate).or
    (([suffixReplicationResetArnPrefix, suffixReplicationDeleteMarkerVersionArnPrefix].find?
      fun start => startsWithIgnoreAsciiCase suffix start).map fun start =>
        start ++ dropPrefix suffix start)).getD suffix

/-- The key and the value that count for a marker's identity; none for a value that is not read. -/
def canonicalEntry (host : InfoHost) (suffix value : String) : Option (String × String) :=
  let canonical := canonicalSuffix suffix
  if eqIgnoreAsciiCase canonical suffixReplicaTimestamp ||
      eqIgnoreAsciiCase canonical suffixReplicationTimestamp then
    (host.parseReplicationTimestamp value).map fun time =>
      (rustfsKey canonical, toString time.unixTimestampNanos)
  else some (rustfsKey canonical, value)

def markerIdentityFrom (host : InfoHost) : Metadata → Option Uuid → List (String × String) →
    Option Metadata
  | identity, _, [] => some identity
  | identity, freeVersionId, (key, value) :: rest =>
    match stripInternalPrefixPreservingCase key with
    | none => markerIdentityFrom host (identity.insert key value) freeVersionId rest
    | some suffix =>
      if eqIgnoreAsciiCase suffix suffixTierFvId then
        match (host.parseUuid value).filter fun id => !id.isNil with
        | none => none
        | some id =>
          if freeVersionId.any fun expected => expected ≠ id then none
          else markerIdentityFrom host identity (some id) rest
      else if eqIgnoreAsciiCase suffix suffixBucketIncarnationId then
        markerIdentityFrom host identity freeVersionId rest
      else
        match canonicalEntry host suffix value with
        | none => none
        | some (canonicalKey, canonicalValue) =>
          if (identity.get canonicalKey).any fun existing => existing ≠ canonicalValue then none
          else markerIdentityFrom host (identity.insert canonicalKey canonicalValue)
            freeVersionId rest

def withTimestamp (statusSuffix timestampSuffix : String) (identity : Metadata) : Option Metadata :=
  match (identity.get (rustfsKey statusSuffix)).isSome,
      (identity.get (rustfsKey timestampSuffix)).isSome with
  | true, false => some (identity.insert (rustfsKey timestampSuffix) "0")
  | false, true => none
  | _, _ => some identity

def markerMetadataIdentity (host : InfoHost) (metadata : Metadata) : Option Metadata :=
  ((markerIdentityFrom host .empty none (host.walk.enumerate metadata.entries)).bind
    (withTimestamp suffixReplicaStatus suffixReplicaTimestamp)).bind
    (withTimestamp suffixReplicationStatus suffixReplicationTimestamp)

def isEquivalentDeleteMarker (host : InfoHost) (source target : ObjectInfo) : Bool :=
  source.deleteMarker && target.deleteMarker && source.versionId = target.versionId &&
    source.modTime = target.modTime && (markerMetadataIdentity host source.userDefined).isSome &&
    markerMetadataIdentity host source.userDefined = markerMetadataIdentity host target.userDefined &&
    source.userTags = target.userTags &&
    source.replicationStatusInternal = target.replicationStatusInternal &&
    source.replicationStatus = target.replicationStatus &&
    source.versionPurgeStatusInternal = target.versionPurgeStatusInternal &&
    source.versionPurgeStatus = target.versionPurgeStatus

/-- What the cross-pool merge asks of a copy that meets another one in its place. -/
def isEquivalentCopy (host : InfoHost) (info previous : ObjectInfo) : Bool :=
  if info.deleteMarker && previous.deleteMarker then isEquivalentDeleteMarker host info previous
  else isEquivalentObjectIdentity host info previous

/-- Bytes of two digits each, where a plus sign counts as a leading zero. -/
def hexBytes : List Char → Option (List Nat)
  | [] => some []
  | [_] => none
  | first :: second :: rest =>
    match if first = '+' then some 0 else hexValue first, hexValue second with
    | some high, some low => (hexBytes rest).map fun bytes => (high * 16 + low) :: bytes
    | _, _ => none

/-- The identity of the tier backend: an error, none, or 32 bytes in hexadecimal. -/
def tierDestinationId (host : InfoHost) (metadata : Metadata) : Option (Option (List Nat)) :=
  match getConsistentStr host.toPlatform metadata suffixTransitionTierDestinationId with
  | none =>
    if containsKeyStr metadata suffixTransitionTierDestinationId then none else some none
  | some encoded =>
    if byteLen encoded ≠ 64 then none
    else (hexBytes encoded.toList).map some

def legacyTransitionVersionStateMissing (host : InfoHost) (info : ObjectInfo) : Option Bool :=
  if !containsKeyStr info.userDefined suffixTransitionedVersionState then
    if containsKeyStr info.userDefined suffixTransitionedVersionId then
      if info.transitionedObject.versionId.isEmpty then
        if info.userDefined.entries.any fun entry =>
            isInternalMetadata entry.1 suffixTransitionedVersionId && !entry.2.isEmpty then none
        else some true
      else if getConsistentStr host.toPlatform info.userDefined suffixTransitionedVersionId =
          some info.transitionedObject.versionId then some true
      else none
    else if !info.transitionedObject.versionId.isEmpty then none
    else some true
  else
    match getConsistentStr host.toPlatform info.userDefined suffixTransitionedVersionState with
    | none => none
    | some persisted => if persisted ≠ info.transitionVersionState.asStr then none else some false

/-- `free_version_remote_tuple_matches(..).unwrap_or(false)`. -/
def freeVersionRemoteTupleMatches (host : InfoHost) (candidate expected : ObjectInfo) : Bool :=
  candidate.transitionedObject.tier = expected.transitionedObject.tier &&
    candidate.transitionedObject.name = expected.transitionedObject.name &&
    match tierDestinationId host candidate.userDefined, tierDestinationId host expected.userDefined with
    | some (some candidateId), some (some expectedId) =>
      candidateId = expectedId &&
        if candidate.transitionVersionState = .unknown || expected.transitionVersionState = .unknown then
          legacyTransitionVersionStateMissing host candidate = some true &&
            legacyTransitionVersionStateMissing host expected = some true &&
            candidate.transitionVersionState = .unknown &&
            expected.transitionVersionState = .unknown &&
            candidate.transitionedObject.versionId = expected.transitionedObject.versionId
        else
          candidate.transitionVersionState = expected.transitionVersionState &&
            candidate.transitionedObject.versionId = expected.transitionedObject.versionId
    | _, _ => false

end DataMovement

end Rustfs.Ecstore
