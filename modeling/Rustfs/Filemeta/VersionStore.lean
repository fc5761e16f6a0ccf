import Rustfs.Filemeta.VersionFrom

/-!
# Operations on a version list

`FileMeta::add_version`, `update_object_version` and `delete_version`. An
operation returns its result together with the value it leaves behind, because a
failed call can have changed the list already.
-/

namespace Rustfs.Filemeta

open Library Library.MessagePack Utils List

def cmpShallowVersionsForOrder (left right : FileMetaShallowVersion) : Ordering :=
  if left.header.sortsBefore right.header then .lt
  else if right.header.sortsBefore left.header then .gt
  else .eq

/-- The stable sort by `cmp_shallow_versions_for_order`. -/
def sortVersions (versions : List FileMetaShallowVersion) : List FileMetaShallowVersion :=
  versions.mergeSort fun left right => cmpShallowVersionsForOrder left right ≠ .gt

/-- The number of leading entries that satisfy the predicate; the binary search
of `partition_point` finds it in a partitioned list. -/
def partitionPoint {α : Type} (holds : α → Bool) (items : List α) : Nat :=
  (items.takeWhile holds).length

def isNullId (id : Option Uuid) : Bool := id = none || id = some Uuid.nil

def nullVersionId : String := "null"

def dataKeyForVersion (versionId : Option Uuid) : String :=
  if isNullId versionId then nullVersionId else (versionId.getD Uuid.nil).text

def legacyDataKeyForVersion (versionId : Option Uuid) : Option String :=
  if isNullId versionId then some Uuid.nil.text else none

namespace FileMeta

/-- `FileMeta::new()`. -/
def new : FileMeta := ⟨[], [], UInt8.ofNat xlMetaVersion⟩

def getIdx (env : Runtime) (idx : Nat) (fm : FileMeta) : Except Error FileMetaVersion :=
  match fm.versions[idx]? with
  | none => .error .fileNotFound
  | some version => version.parseVersionMeta env

def setIdx (env : Runtime) (idx : Nat) (version : FileMetaVersion) (fm : FileMeta) :
    Except Error Unit × FileMeta :=
  if fm.versions.length ≤ idx then (.error .fileNotFound, fm)
  else (.ok (), { fm with
    versions := sortVersions (fm.versions.set idx (version.toShallow env)) })

def removeIdx (idx : Nat) (fm : FileMeta) : FileMeta :=
  { fm with versions := fm.versions.eraseIdx idx }

def findInlineDataForVersion (versionId : Option Uuid) (fm : FileMeta) :
    Except Error (Option Bytes) := do
  match ← fm.data.find (dataKeyForVersion versionId) with
  | some data => pure (some data)
  | none =>
    match legacyDataKeyForVersion versionId with
    | some legacyKey =>
      if legacyKey ≠ dataKeyForVersion versionId then fm.data.find legacyKey else pure none
    | none => pure none

end FileMeta

def reconcileSuffixes : List String :=
  [suffixTransitionedVersionState, suffixTransitionedVersionId, suffixTransitionTierDestinationId]

structure TransitionStateReconcileTarget where
  state : TransitionVersionState
  remoteVersion : Option String
  destinationId : String

def isLowerHexdigit (byte : UInt8) : Bool :=
  (0x30 ≤ byte && byte ≤ 0x39) || (0x61 ≤ byte && byte ≤ 0x66)

def TransitionStateReconcileTarget.validate (env : Runtime)
    (target : TransitionStateReconcileTarget) : Except Error Unit :=
  let validVersion := match target.state with
    | .knownDisabled => target.remoteVersion.isNone
    | .suspendedNull => target.remoteVersion = some "null"
    | .exact => target.remoteVersion.any fun value =>
      value ≠ "null" && transitionVersionUsable env value
    | .unknown => false
  if !validVersion || byteLen target.destinationId ≠ 64 ||
      !(utf8 target.destinationId).all isLowerHexdigit then
    .error .fileCorrupt
  else .ok ()

/-- The stored binding under the three suffixes, copied over the new one. -/
def copyReconciled (env : Runtime) (previous next : SysMetadata) : SysMetadata :=
  reconcileSuffixes.foldl (fun metaSys suffix =>
    insertOptional (removeBytes metaSys suffix) suffix
      (getConsistentBytes env.toPlatform previous suffix)) next

/-- What a rewrite of a reconciled transition may not change. -/
def reconcileConflict (previous next : FileInfo) : Bool :=
  previous.transitionTier ≠ next.transitionTier ||
    previous.transitionedObjname ≠ next.transitionedObjname ||
    previous.transitionStatus ≠ next.transitionStatus || previous.size ≠ next.size ||
    previous.metadata.get "etag" ≠ next.metadata.get "etag"

def reconcileVersionConflict (previous next : FileInfo) (nextSys : SysMetadata) : Bool :=
  (next.transitionVersion.any fun version => some version ≠ previous.transitionVersion) ||
    if containsKeyBytes nextSys suffixTransitionedVersionState then
      previous.transitionVersionState ≠ next.transitionVersionState ||
        previous.transitionVersion ≠ next.transitionVersion
    else next.transitionVersionState ≠ .unknown

def isReconciled (previous next : MetaObject) : Bool :=
  containsKeyBytes previous.metaSys suffixTransitionTierDestinationId &&
    containsKeyBytes previous.metaSys suffixTransitionedVersionState &&
    previous.dataDir = next.dataDir

/-- `ok_or(Error::FileCorrupt)`. -/
def presentOrCorrupt {α : Type} (value : Option α) : Except Error α :=
  match value with
  | some value => .ok value
  | none => .error .fileCorrupt

def checkReconciled (env : Runtime) (previousInfo nextInfo : FileInfo)
    (previousSys nextSys : SysMetadata) : Except Error Unit := do
  corruptIf (reconcileConflict previousInfo nextInfo)
  let destination ← presentOrCorrupt
    (getConsistentBytes env.toPlatform previousSys suffixTransitionTierDestinationId)
  previousInfo.validateForMetadataRead env
  let destinationId ← presentOrCorrupt (stringFromUtf8 destination)
  TransitionStateReconcileTarget.validate env
    ⟨previousInfo.transitionVersionState, previousInfo.transitionVersion, destinationId⟩
  corruptIf (reconcileVersionConflict previousInfo nextInfo nextSys)
  corruptIf (containsKeyBytes nextSys suffixTransitionTierDestinationId &&
    getConsistentBytes env.toPlatform nextSys suffixTransitionTierDestinationId ≠ some destination)

/-- The version that is stored in place of `next`: the binding of a reconciled
transition is kept, and a contradicting one is refused. -/
def preserveReconciledTransition (env : Runtime) (previous next : FileMetaVersion) :
    Except Error FileMetaVersion :=
  match previous.object, next.object with
  | some previousObject, some nextObject =>
    if !isReconciled previousObject nextObject then .ok next
    else do
      let previousInfo ← previous.intoFileinfo env "" "" true
      if previousInfo.transitionVersionState = .unknown ||
          previousInfo.transitionStatus ≠ transitionComplete then
        pure next
      else
        let nextInfo ← next.intoFileinfo env "" "" true
        checkReconciled env previousInfo nextInfo previousObject.metaSys nextObject.metaSys
        pure { next with
          object := some { nextObject with
            metaSys := copyReconciled env previousObject.metaSys nextObject.metaSys } }
  | _, _ => .ok next

namespace FileMeta

def insertShallow (fm : FileMeta) (version : FileMetaShallowVersion) : FileMeta :=
  let position := partitionPoint (fun existing => existing.header.sortsBefore version.header)
    fm.versions
  { fm with versions := sortVersions (fm.versions.insertIdx position version) }

/-- The entry that a new version of this id replaces. -/
def existingIdx (id : Option Uuid) (fm : FileMeta) : Option Nat :=
  if isNullId id then fm.versions.findIdx? fun version => isNullId version.header.versionId
  else fm.versions.findIdx? fun version => version.header.versionId = id

def replaceVersion (env : Runtime) (idx : Nat) (version : FileMetaVersion) (fm : FileMeta) :
    Except Error Unit × FileMeta :=
  match fm.getIdx env idx with
  | .error error => (.error error, fm)
  | .ok existing =>
    if existing.freeVersion ≠ version.freeVersion then
      (.error (.other "cannot replace a free version with a non-free version"), fm)
    else
      match preserveReconciledTransition env existing version with
      | .error error => (.error error, fm)
      | .ok version => fm.setIdx env idx version

def addVersionFilemata (env : Runtime) (version : FileMetaVersion) (fm : FileMeta) :
    Except Error Unit × FileMeta :=
  if !version.valid then (.error (.other "file meta version invalid"), fm)
  else
    match fm.existingIdx (version.getVersionId env) with
    | some idx => fm.replaceVersion env idx version
    | none =>
      if env.objectMaxVersions ≤ fm.versions.length then (.error .maxVersionsExceeded, fm)
      else (.ok (), fm.insertShallow (version.toShallow env))

/-- The inline section after the request's payload is stored or dropped. -/
def nextData (fi : FileInfo) (fm : FileMeta) : Except Error InlineData :=
  match fi.data with
  | some data => InlineData.replace fm.data (dataKeyForVersion fi.versionId) data
  | none => (InlineData.removeKey fm.data (dataKeyForVersion fi.versionId)).map Prod.snd

/-- The request as it is stored: without the cleanup id, and with the null id
spelled out. -/
def storedRequest (fi : FileInfo) : FileInfo :=
  { fi with
    metadata := removeStr fi.metadata suffixTierFvId
    versionId := some (fi.versionId.getD Uuid.nil) }

def addVersionInner (env : Runtime) (request : FileInfo) (fm : FileMeta) :
    Except Error Unit × FileMeta :=
  let fi := storedRequest request
  if fi.data.isNone && (InlineData.afterVersion fm.data).isEmpty then
    fm.addVersionFilemata env (.fromFileInfo env fi)
  else
    match fm.nextData fi with
    | .error error => (.error error, fm)
    | .ok data =>
      match fm.addVersionFilemata env (.fromFileInfo env fi) with
      | (.ok (), next) => (.ok (), { next with data := data })
      | (.error error, next) => (.error error, next)

def legacyFreeVersionId (env : Runtime) (fi : FileInfo) : Except Error (Option Uuid) :=
  if containsKeyStr fi.metadata suffixTierFvId then do
    let text ← presentOrCorrupt (getConsistentStr env.toPlatform fi.metadata suffixTierFvId)
    let id ← MetaObject.parseUuidOr env text
    pure (some id)
  else .ok none

/-- The id of the cleanup record that an overwrite may leave; the two places that
can carry it have to agree. -/
def overwriteFreeVersionId (env : Runtime) (fi : FileInfo) : Except Error (Option Uuid) := do
  let legacyId ← legacyFreeVersionId env fi
  match fi.overwriteTierFreeVersionId, legacyId with
  | some current, some legacy =>
    if current ≠ legacy || current.isNil then throw .fileCorrupt else pure (some current)
  | some id, none | none, some id => if id.isNil then throw .fileCorrupt else pure (some id)
  | none, none => pure none

def transitionSuffixes : List String :=
  [suffixTransitionStatus, suffixTransitionTier, suffixTransitionTierDestinationId,
    suffixTransitionedObjectname, suffixTransitionedVersionId, suffixTransitionedVersionState]

/-- Every accepted spelling of a transition suffix, written under both prefixes. -/
def canonicalizeTransition (env : Runtime) (object : MetaObject) : MetaObject :=
  { object with
    metaSys := transitionSuffixes.foldl (fun metaSys suffix =>
      insertOptional metaSys suffix
        (((env.walk.enumerate metaSys.entries).find? fun entry =>
          (stripInternalPrefixPreservingCase entry.1).any fun found =>
            eqIgnoreAsciiCase found suffix).map Prod.snd)) object.metaSys }

def sameTransition (env : Runtime) (object replacement : MetaObject) : Bool :=
  transitionSuffixes.all fun suffix =>
    getConsistentBytes env.toPlatform object.metaSys suffix =
      getConsistentBytes env.toPlatform replacement.metaSys suffix

def hasSysSuffix (env : Runtime) (object : MetaObject) (suffix : String) : Bool :=
  object.metaSys.entries.any fun entry => hasInternalSuffix env.toPlatform entry.1 suffix

/-- The cleanup record for the transitioned object that a request overwrites. -/
def overwrittenObjectFreeVersion (env : Runtime) (fi : FileInfo) (id : Uuid) (object : MetaObject)
    (fm : FileMeta) : Except Error (Option FileMetaVersion) :=
  let status := getConsistentBytes env.toPlatform object.metaSys suffixTransitionStatus
  if status.isNone && hasSysSuffix env object suffixTransitionStatus then
    (object.toFileinfo env fi.volume fi.name false true).map fun _ => none
  else if status ≠ some (utf8 transitionComplete) then .ok none
  else do
    let _ ← object.toFileinfo env fi.volume fi.name false true
    corruptIf (hasSysSuffix env object suffixTransitionTierDestinationId &&
      (getConsistentBytes env.toPlatform object.metaSys suffixTransitionTierDestinationId).isNone)
    if sameTransition env object (.fromFileInfo env fi) then pure none
    else
      corruptIf (fm.versions.any fun version => version.header.versionId = some id)
      let freeVersion ← (canonicalizeTransition env object).initFreeVersion env
        { fi with metadata := insertStr fi.metadata suffixTierFvId id.text }
      let created ← presentOrCorrupt freeVersion
      pure (some created)

def overwrittenTierFreeVersion (env : Runtime) (fi : FileInfo) (fm : FileMeta) :
    Except Error (Option FileMetaVersion) :=
  if fi.versionId.any fun id => !id.isNil then .ok none
  else do
    match ← overwriteFreeVersionId env fi with
    | none => pure none
    | some id =>
      match fm.versions.find? fun version => isNullId version.header.versionId with
      | none => pure none
      | some existing => do
          let old ← existing.parseVersionMeta env
          match old.object with
          | none => pure none
          | some object => fm.overwrittenObjectFreeVersion env fi id object

/-- With a cleanup record to keep, both insertions succeed or the value stays. -/
def addVersion (env : Runtime) (fi : FileInfo) (fm : FileMeta) : Except Error Unit × FileMeta :=
  match fm.overwrittenTierFreeVersion env fi with
  | .error error => (.error error, fm)
  | .ok none => fm.addVersionInner env fi
  | .ok (some freeVersion) =>
    match fm.addVersionInner env fi with
    | (.error error, _) => (.error error, fm)
    | (.ok (), next) =>
      match next.addVersionFilemata env freeVersion with
      | (.error error, _) => (.error error, fm)
      | (.ok (), last) => (.ok (), last)

end FileMeta

/-- The suffixes that a request carries under any spelling. -/
def replacedSuffixes (metadata : Metadata) : List String :=
  metadata.entries.filterMap fun entry =>
    (stripInternalPrefixPreservingCase entry.1).map asciiLowercase

namespace MetaObject

def clearUserMetadata (fi : FileInfo) (object : MetaObject) : MetaObject :=
  { object with
    metaUser := .empty
    metaSys := [suffixRestoreOperationId, suffixRestoreWorkerLock].foldl (fun metaSys suffix =>
      if containsKeyStr fi.metadata suffix then metaSys else removeBytes metaSys suffix)
      object.metaSys }

def dropReplaced (metadata : Metadata) (object : MetaObject) : MetaObject :=
  { object with
    metaSys := object.metaSys.filter fun entry =>
      (stripInternalPrefixPreservingCase entry.1).all fun suffix =>
        asciiLowercase suffix ∉ replacedSuffixes metadata }

def applyUpdate (env : Runtime) (fi : FileInfo) (replaceUserMetadata : Bool) (object : MetaObject) :
    MetaObject :=
  let cleared := if replaceUserMetadata then object.clearUserMetadata fi else object
  let stored := (cleared.dropReplaced fi.metadata).storeAll env fi.metadata
  { stored with
    modTime := fi.modTime.or stored.modTime
    metaSys := insertOptional stored.metaSys suffixCrc fi.checksum }

end MetaObject

/-- Only a body that names its destination is compared with the new one. -/
def FileMetaVersion.preserveIfBound (env : Runtime) (previous next : FileMetaVersion) :
    Except Error FileMetaVersion :=
  if previous.object.any fun object =>
      containsKeyBytes object.metaSys suffixTransitionTierDestinationId then
    preserveReconciledTransition env previous next
  else .ok next

/-- The entry after an update of its object. -/
def FileMetaShallowVersion.updated (env : Runtime) (fi : FileInfo) (replaceUserMetadata : Bool)
    (version : FileMetaShallowVersion) : Except Error FileMetaShallowVersion := do
  let body ← version.parseVersionMeta env
  let kept ← body.preserveIfBound env
    { body with object := body.object.map (MetaObject.applyUpdate env fi replaceUserMetadata) }
  pure (kept.toShallow env)

/-- The loop over the entries; those before a failing one are already rewritten. -/
def updateEntries (env : Runtime) (fi : FileInfo) (replaceUserMetadata : Bool) :
    List FileMetaShallowVersion → Except Error Unit × List FileMetaShallowVersion
  | [] => (.ok (), [])
  | version :: rest =>
    let continueWith (version : FileMetaShallowVersion) :
        Except Error Unit × List FileMetaShallowVersion :=
      let (result, rest) := updateEntries env fi replaceUserMetadata rest
      (result, version :: rest)
    match version.header.versionType with
    | .invalid | .legacy => continueWith version
    | .object =>
      if version.header.versionId.getD Uuid.nil = fi.versionId.getD Uuid.nil then
        match version.updated env fi replaceUserMetadata with
        | .ok updated => continueWith updated
        | .error error => (.error error, version :: rest)
      else continueWith version
    | .delete =>
      if version.header.versionId = fi.versionId then
        (.error .methodNotAllowed, version :: rest)
      else continueWith version

namespace FileMeta

def updateObjectVersionWithOpts (env : Runtime) (fi : FileInfo) (replaceUserMetadata : Bool)
    (fm : FileMeta) : Except Error Unit × FileMeta :=
  match updateEntries env fi replaceUserMetadata fm.versions with
  | (.ok (), versions) => (.ok (), { fm with versions := sortVersions versions })
  | (.error error, versions) => (.error error, { fm with versions := versions })

def updateObjectVersion (env : Runtime) (fi : FileInfo) (fm : FileMeta) :
    Except Error Unit × FileMeta :=
  fm.updateObjectVersionWithOpts env fi false

end FileMeta

def MetaObject.physicalDataDir (env : Runtime) (object : MetaObject) : Option Uuid :=
  if object.inlinedata then none
  else if object.transitionedAway && !isRestoredObjectOnDisk env object.metaUser then none
  else normalId object.dataDir

def physicalDataDir (env : Runtime) (version : FileMetaShallowVersion) :
    Except Error (Option Uuid) :=
  if version.header.versionType ≠ .object then .ok none
  else (version.parseVersionMeta env).map fun body =>
    body.object.bind (MetaObject.physicalDataDir env)

/-- An entry that cannot be decoded ends the count at one. -/
def countDataDir (env : Runtime) (dir : Uuid) : List FileMetaShallowVersion → (count : Nat) → Nat
  | [], count => count
  | version :: rest, count =>
    match physicalDataDir env version with
    | .ok found => countDataDir env dir rest (if found = some dir then count + 1 else count)
    | .error _ => 1

namespace FileMeta

def hasInlineData (versionId : Option Uuid) (fm : FileMeta) : Bool :=
  let entries := match InlineData.entries fm.data with
    | .ok entries => entries
    | .error _ => 0
  let inlined := match fm.findInlineDataForVersion versionId with
    | .ok data => data
    | .error _ => none
  0 < entries && inlined.isSome

def sharedDataDirCount (env : Runtime) (versionId dataDir : Option Uuid) (fm : FileMeta) : Nat :=
  match dataDir with
  | none => 0
  | some dir =>
    if fm.hasInlineData versionId then 0
    else countDataDir env dir (fm.versions.filter fun version =>
      version.header.versionType = .object &&
        version.header.versionId ≠ some (versionId.getD Uuid.nil)) 0

end FileMeta

namespace FileInfo

def targetId (fi : FileInfo) : Option Uuid := some (fi.versionId.getD Uuid.nil)

def purgeStatusBytes (fi : FileInfo) : Bytes :=
  utf8 ((fi.replicationStateInternal.bind ReplicationState.versionPurgeStatusInternal).getD "")

def incarnationMetadata (env : Runtime) (fi : FileInfo) : SysMetadata :=
  insertOptional .empty suffixBucketIncarnationId
    ((fi.deleteMarkerIncarnation env).map fun id => utf8 id.text)

def deleteMarkerMetadata (env : Runtime) (fi : FileInfo) : SysMetadata :=
  let start := fi.incarnationMetadata env
  let replicated := match fi.replicationStateInternal with
    | some state => persistDeleteMarkerReplicationState env start state
    | none => start
  let purged := if fi.versionPurgeStatus.isEmpty then replicated
    else insertBytes replicated suffixPurgestatus fi.purgeStatusBytes
  match fi.replicationStateInternal with
  | some state => persistTargets env fi purged state
  | none => purged

/-- `ventry`: the marker of a delete request, a default version otherwise. -/
def deleteEntry (env : Runtime) (fi : FileInfo) : FileMetaVersion :=
  if fi.deleted then
    { FileMetaVersion.default with
      versionType := .delete
      deleteMarker := some ⟨fi.targetId, fi.modTime, fi.deleteMarkerMetadata env⟩ }
  else .default

/-- Whether the request changes the entry in place instead of removing it. -/
def updatesVersion (fi : FileInfo) (targetIsDeleteMarker : Bool) : Bool :=
  let purge := fi.versionPurgeStatus
  let replication := fi.deleteMarkerReplicationStatus
  let update :=
    if purge.isEmpty && (replication = .replica || replication = .empty) then fi.markDeleted
    else
      (fi.deleted && purge ≠ .complete && (!purge.isEmpty || replication.isEmpty)) ||
        (!purge.isEmpty && purge ≠ .complete)
  if targetIsDeleteMarker && !fi.deleted && !purge.isEmpty then false else update

end FileInfo

/-- Where the loop over the entries stops, and for what. -/
inductive DeleteScan
  | notFree
  | invalid
  | updateMarker (idx : Nat)
  | removeMarker (idx : Nat)
  | updateObject (idx : Nat)
  | finished (found : Option Nat)
  deriving DecidableEq

def deleteScan (fi : FileInfo) (update : Bool) :
    (versions : List FileMetaShallowVersion) → (idx : Nat) → (found : Option Nat) → DeleteScan
  | [], _, found => .finished found
  | version :: rest, idx, found =>
    if version.header.versionId ≠ fi.targetId then deleteScan fi update rest (idx + 1) found
    else if fi.tierFreeVersion && !version.header.freeVersion then .notFree
    else
      match version.header.versionType with
      | .invalid | .legacy => .invalid
      | .delete => if update then .updateMarker idx else .removeMarker idx
      | .object =>
        if update && !fi.deleted then .updateObject idx
        else deleteScan fi update rest (idx + 1) (some idx)

namespace MetaDeleteMarker

def applyReplication (env : Runtime) (fi : FileInfo) (marker : MetaDeleteMarker) :
    MetaDeleteMarker :=
  match fi.replicationStateInternal with
  | none => marker
  | some state =>
    { marker with
      metaSys := persistTargets env fi
        (persistDeleteMarkerReplicationState env marker.metaSys state) state }

end MetaDeleteMarker

def MetaObject.markPurge (env : Runtime) (fi : FileInfo) (object : MetaObject) : MetaObject :=
  let purged := insertBytes object.metaSys suffixPurgestatus fi.purgeStatusBytes
  { object with
    metaSys := match fi.replicationStateInternal with
      | none => purged
      | some state => persistResetStatuses env purged state.resetStatusesMap }

namespace FileMeta

def updateMarker (env : Runtime) (fi : FileInfo) (idx : Nat) (fm : FileMeta) :
    Except Error (Option Uuid) × FileMeta :=
  match fm.getIdx env idx with
  | .error error => (.error error, fm)
  | .ok version =>
    let marker := version.deleteMarker.getD ⟨fi.targetId, fi.modTime, .empty⟩
    let next := fm.setIdx env idx
      { version with deleteMarker := some (marker.applyReplication env fi) }
    (next.1.map fun _ => none, next.2)

def addEntry (env : Runtime) (entry : FileMetaVersion) (fm : FileMeta) :
    Except Error (Option Uuid) × FileMeta :=
  let next := fm.addVersionFilemata env entry
  (next.1.map fun _ => none, next.2)

/-- A removed marker is replaced when the request is a pending purge of it or a
delete of the null version. -/
def removeMarker (env : Runtime) (fi : FileInfo) (idx : Nat) (fm : FileMeta) :
    Except Error (Option Uuid) × FileMeta :=
  let removed := fm.removeIdx idx
  if (fi.markDeleted && fi.versionPurgeStatus ≠ .complete) ||
      (fi.deleted && fi.targetId = some Uuid.nil) then
    removed.addEntry env (fi.deleteEntry env)
  else (.ok none, removed)

def updateObject (env : Runtime) (fi : FileInfo) (idx : Nat) (fm : FileMeta) :
    Except Error (Option Uuid) × FileMeta :=
  match fm.getIdx env idx with
  | .error error => (.error error, fm)
  | .ok version =>
    let next := fm.setIdx env idx
      { version with object := version.object.map (MetaObject.markPurge env fi) }
    (next.1.map fun _ => none, next.2)

/-- The list after the object is restored, transitioned or removed; a cleanup
record that cannot be built ends the call, one that cannot be stored does not. -/
def changeObject (env : Runtime) (fi : FileInfo) (idx : Nat) (version : FileMetaVersion)
    (object : MetaObject) (fm : FileMeta) : Except Error (Except Error Unit) × FileMeta :=
  if fi.expireRestored then
    let next := fm.setIdx env idx { version with object := some object.removeRestoreHdrs }
    (.ok next.1, next.2)
  else if fi.transitionStatus = transitionComplete then
    let next := fm.setIdx env idx
      { version with object := some (object.setTransition env fi).resetInlineData }
    (.ok next.1, next.2)
  else
    let removed := fm.removeIdx idx
    match object.initFreeVersion env fi with
    | .error error => (.error error, removed)
    | .ok none => (.ok (.ok ()), removed)
    | .ok (some freeVersion) =>
      let next := removed.addVersionFilemata env freeVersion
      (.ok next.1, next.2)

/-- The data directory that nothing else uses. -/
def releasedDataDir (env : Runtime) (object : MetaObject) (fm : FileMeta) : Option Uuid :=
  if 0 < fm.sharedDataDirCount env object.versionId object.dataDir then none else object.dataDir

def deleteObject (env : Runtime) (fi : FileInfo) (idx : Nat) (version : FileMetaVersion)
    (object : MetaObject) (fm : FileMeta) : Except Error (Option Uuid) × FileMeta :=
  match fm.changeObject env fi idx version object with
  | (.error error, changed) => (.error error, changed)
  | (.ok result, changed) =>
    -- The outcome of the marker's insertion replaces an earlier failure.
    let (result, last) := if fi.deleted then changed.addVersionFilemata env (fi.deleteEntry env)
      else (result, changed)
    (result.map fun _ => last.releasedDataDir env object, last)

def finishDelete (env : Runtime) (fi : FileInfo) (found : Option Nat) (fm : FileMeta) :
    Except Error (Option Uuid) × FileMeta :=
  let missing := if fi.deleted then fm.addEntry env (fi.deleteEntry env)
    else (.error .fileVersionNotFound, fm)
  match found with
  | none => missing
  | some idx =>
    match fm.getIdx env idx with
    | .error error => (.error error, fm)
    | .ok version =>
      match version.object with
      | none => missing
      | some object => fm.deleteObject env fi idx version object

/-- The cleanup record a tier worker deletes. -/
def isFreeTarget (env : Runtime) (fi : FileInfo) (version : FileMetaShallowVersion) : Bool :=
  version.header.versionId = fi.targetId && version.header.versionType = .delete &&
    version.header.freeVersion &&
    match version.parseVersionMeta env with
    | .ok body => body.freeVersion && (body.header env).versionId = fi.targetId
    | .error _ => false

def deleteFreeVersion (env : Runtime) (fi : FileInfo) (fm : FileMeta) :
    Except Error (Option Uuid) × FileMeta :=
  match fm.versions.findIdx? (isFreeTarget env fi) with
  | none => (.error .fileVersionNotFound, fm)
  | some idx => (.ok none, fm.removeIdx idx)

def targetIsDeleteMarker (fi : FileInfo) (fm : FileMeta) : Bool :=
  (fm.versions.find? fun version => version.header.versionId = fi.targetId).any fun version =>
    version.header.versionType = .delete

def deleteVersion (env : Runtime) (fi : FileInfo) (fm : FileMeta) :
    Except Error (Option Uuid) × FileMeta :=
  match fi.validateForDeleteOperation env with
  | .error error => (.error error, fm)
  | .ok () =>
    if fi.deleted && fi.tierFreeVersion then fm.deleteFreeVersion env fi
    else
      match deleteScan fi (fi.updatesVersion (fm.targetIsDeleteMarker fi)) fm.versions 0 none with
      | .notFree => (.error .fileVersionNotFound, fm)
      | .invalid => (.error (.other "invalid file meta version"), fm)
      | .updateMarker idx => fm.updateMarker env fi idx
      | .removeMarker idx => fm.removeMarker env fi idx
      | .updateObject idx => fm.updateObject env fi idx
      | .finished found => fm.finishDelete env fi found

end FileMeta

theorem sort_versions_perm (versions : List FileMetaShallowVersion) :
    (sortVersions versions).Perm versions :=
  mergeSort_perm _ _

theorem set_perm {α : Type} {items : List α} {idx : Nat} (inside : idx < items.length)
    (item : α) : (items.set idx item).Perm (item :: items.eraseIdx idx) := by
  rw [set_eq_take_append_cons_drop, if_pos inside, eraseIdx_eq_take_drop_succ]
  exact perm_middle

section Edits

variable {env : Runtime} {fm next : FileMeta} {version : FileMetaVersion} {idx : Nat}

theorem get_idx_ok (found : fm.getIdx env idx = .ok version) :
    ∃ entry, fm.versions[idx]? = some entry ∧ entry.parseVersionMeta env = .ok version := by
  unfold FileMeta.getIdx at found
  split at found
  · cases found
  · rename_i entry isEntry
    exact ⟨entry, isEntry, found⟩

theorem get_idx_inside (found : fm.getIdx env idx = .ok version) : idx < fm.versions.length := by
  obtain ⟨entry, isEntry, _⟩ := get_idx_ok found
  exact (List.getElem?_eq_some_iff.1 isEntry).1

/-- The list after the entry of an index was rewritten. -/
def FileMeta.withEntry (fm : FileMeta) (idx : Nat) (entry : FileMetaShallowVersion) : FileMeta :=
  { fm with versions := sortVersions (fm.versions.set idx entry) }

theorem set_idx_eq (inside : idx < fm.versions.length) (version : FileMetaVersion) :
    fm.setIdx env idx version = (.ok (), fm.withEntry idx (version.toShallow env)) := by
  unfold FileMeta.setIdx FileMeta.withEntry
  rw [if_neg (not_le.2 inside)]

theorem with_entry_perm (inside : idx < fm.versions.length) (entry : FileMetaShallowVersion) :
    (fm.withEntry idx entry).versions.Perm (entry :: fm.versions.eraseIdx idx) :=
  (sort_versions_perm _).trans (set_perm inside entry)

theorem insert_shallow_perm (fm : FileMeta) (entry : FileMetaShallowVersion) :
    (fm.insertShallow entry).versions.Perm (entry :: fm.versions) := by
  apply (sort_versions_perm _).trans
  apply perm_insertIdx
  exact (takeWhile_sublist _).length_le

end Edits

section Adding

variable {env : Runtime} {fm next : FileMeta} {version : FileMetaVersion}

/-- What a successful insertion did: the version is new, or it took the place of the entry
with its id. -/
inductive Added (env : Runtime) (fm : FileMeta) (version : FileMetaVersion) : FileMeta → Prop
  | inserted (absent : fm.existingIdx (version.getVersionId env) = none)
      (room : fm.versions.length < env.objectMaxVersions) :
      Added env fm version (fm.insertShallow (version.toShallow env))
  | replaced {idx : Nat} {existing stored : FileMetaVersion}
      (present : fm.existingIdx (version.getVersionId env) = some idx)
      (found : fm.getIdx env idx = .ok existing)
      (alike : existing.freeVersion = version.freeVersion)
      (preserved : preserveReconciledTransition env existing version = .ok stored) :
      Added env fm version (fm.withEntry idx (stored.toShallow env))

theorem replace_version_cases {idx : Nat} {result : Except Error Unit}
    (present : fm.existingIdx (version.getVersionId env) = some idx)
    (done : fm.replaceVersion env idx version = (result, next)) :
    (∃ error, result = .error error ∧ next = fm) ∨
      (result = .ok () ∧ Added env fm version next) := by
  unfold FileMeta.replaceVersion at done
  split at done
  · rename_i error _
    cases done
    exact .inl ⟨error, rfl, rfl⟩
  rename_i existing found
  split at done
  · cases done
    exact .inl ⟨_, rfl, rfl⟩
  rename_i alike
  split at done
  · rename_i error _
    cases done
    exact .inl ⟨error, rfl, rfl⟩
  rename_i stored preserved
  rw [set_idx_eq (get_idx_inside found)] at done
  cases done
  exact .inr ⟨rfl, .replaced present found (not_not.1 alike) preserved⟩

theorem add_version_filemata_cases (env : Runtime) (fm : FileMeta) (version : FileMetaVersion) :
    (∃ error, (fm.addVersionFilemata env version).1 = .error error ∧
        (fm.addVersionFilemata env version).2 = fm) ∨
      ((fm.addVersionFilemata env version).1 = .ok () ∧ version.valid = true ∧
        Added env fm version (fm.addVersionFilemata env version).2) := by
  generalize done : fm.addVersionFilemata env version = outcome
  unfold FileMeta.addVersionFilemata at done
  split at done
  · cases done
    exact .inl ⟨_, rfl, rfl⟩
  rename_i valid
  have isValid : version.valid = true := by simpa using valid
  split at done
  · rename_i idx present
    rcases replace_version_cases present done with failed | ⟨succeeded, added⟩
    · exact .inl failed
    · exact .inr ⟨succeeded, isValid, added⟩
  rename_i absent
  split at done
  · cases done
    exact .inl ⟨_, rfl, rfl⟩
  rename_i room
  cases done
  exact .inr ⟨rfl, isValid, .inserted absent (not_le.1 room)⟩

theorem preserve_without_object {existing : FileMetaVersion} (bare : version.object = none) :
    preserveReconciledTransition env existing version = .ok version := by
  unfold preserveReconciledTransition
  rw [bare]
  cases existing.object with
  | none => rfl
  | some object => rfl

/-- The entries that a record of the id leaves in place. -/
def FileMeta.besides (id : Option Uuid) (fm : FileMeta) : List FileMetaShallowVersion :=
  match fm.existingIdx id with
  | some idx => fm.versions.eraseIdx idx
  | none => fm.versions

theorem added_perm (added : Added env fm version next) (bare : version.object = none) :
    next.versions.Perm (version.toShallow env :: fm.besides (version.getVersionId env)) := by
  unfold FileMeta.besides
  cases added with
  | inserted absent room =>
    rw [absent]
    exact insert_shallow_perm fm _
  | replaced present found alike preserved =>
    rw [preserve_without_object bare] at preserved
    cases preserved
    rw [present]
    exact with_entry_perm (get_idx_inside found) _

theorem besides_sublist (id : Option Uuid) (fm : FileMeta) :
    (fm.besides id).Sublist fm.versions := by
  unfold FileMeta.besides
  split
  · exact eraseIdx_sublist _ _
  · exact List.Sublist.refl _

theorem added_data (added : Added env fm version next) : next.data = fm.data := by
  cases added with
  | inserted => rfl
  | replaced => rfl

end Adding

end Rustfs.Filemeta
