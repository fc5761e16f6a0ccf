import Rustfs.Filemeta.FileMetaCodec
import Rustfs.Filemeta.VersionMerge

/-!
# Metacache entries and their resolution

One `MetaCacheEntry` is what one disk lists for a name. `resolve_inner` walks the
entries of all disks, keeps a preferred one while they agree, and merges their version
lists when they do not. The streaming of cache blocks is left out.
-/

namespace Rustfs.Filemeta

structure MetaCacheEntry where
  name : String
  metadata : Bytes
  cached : Option FileMeta
  reusable : Bool
  deriving DecidableEq

def FileMeta.latestModTime (fm : FileMeta) : Option OffsetDateTime :=
  match fm.versions with
  | [] => none
  | first :: _ => first.header.modTime

def FileMetaVersionHeader.withoutEc (header : FileMetaVersionHeader) : FileMetaVersionHeader :=
  { header with ecN := 0, ecM := 0 }

namespace MetaCacheEntry

def isDir (entry : MetaCacheEntry) : Bool :=
  entry.metadata.isEmpty && entry.name.toList.getLast? = some '/'

def isObject (entry : MetaCacheEntry) : Bool := !entry.metadata.isEmpty

def fileMeta (hash : Hash) (entry : MetaCacheEntry) : Except Error FileMeta :=
  match entry.cached with
  | some fileMeta => .ok fileMeta
  | none => FileMeta.load hash entry.metadata

/-- `xl_meta` fills the cache; the second component is the entry afterwards. -/
def xlMeta (hash : Hash) (entry : MetaCacheEntry) : Except Error (FileMeta × MetaCacheEntry) :=
  if entry.isDir then .error .fileNotFound
  else
    match entry.cached with
    | some fileMeta => .ok (fileMeta, entry)
    | none =>
      if entry.metadata.isEmpty then .error .fileNotFound
      else
        match FileMeta.load hash entry.metadata with
        | .ok fileMeta => .ok (fileMeta, { entry with cached := some fileMeta })
        | .error error => .error error

def sortedFirst (entry other : MetaCacheEntry) (ours theirs : FileMetaShallowVersion) :
    MetaCacheEntry :=
  if ours.header.sortsBefore theirs.header then entry else other

/-- The loop of `matches` over the paired versions; `prefer` is settled by the
first pair that only matches loosely. -/
def matchVersions (strict : Bool) (entry other : MetaCacheEntry) :
    Option MetaCacheEntry → List (FileMetaShallowVersion × FileMetaShallowVersion) →
      Option MetaCacheEntry × Bool
  | prefer, [] => (some (prefer.getD entry), true)
  | prefer, (ours, theirs) :: rest =>
    if ours.header = theirs.header then matchVersions strict entry other prefer rest
    else if ours.header.hasEc ≠ theirs.header.hasEc &&
        ours.header.withoutEc = theirs.header.withoutEc then
      matchVersions strict entry other prefer rest
    else if !strict && ours.header.matchesNotStrict theirs.header then
      matchVersions strict entry other
        (some (prefer.getD (sortedFirst entry other ours theirs))) rest
    else (some (prefer.getD (sortedFirst entry other ours theirs)), false)

def matchFileMeta (strict : Bool) (entry other : MetaCacheEntry) (ours theirs : FileMeta) :
    Option MetaCacheEntry × Bool :=
  if ours.versions.length ≠ theirs.versions.length then
    if optionLt theirs.latestModTime ours.latestModTime then (some entry, false)
    else if optionLt ours.latestModTime theirs.latestModTime then (some other, false)
    else if theirs.versions.length < ours.versions.length then (some entry, false)
    else (some other, false)
  else matchVersions strict entry other none (ours.versions.zip theirs.versions)

/-- `MetaCacheEntry::matches`. -/
def matchesEntry (hash : Hash) (entry : MetaCacheEntry) (other : Option MetaCacheEntry)
    (strict : Bool) : Option MetaCacheEntry × Bool :=
  match other with
  | none => (none, false)
  | some other =>
    if entry.name ≠ other.name then
      (some (if entry.name < other.name then entry else other), false)
    else if other.isDir || entry.isDir then
      (some (if entry.isDir then entry else other), other.isDir = entry.isDir)
    else
      match entry.fileMeta hash, other.fileMeta hash with
      | .ok ours, .ok theirs => matchFileMeta strict entry other ours theirs
      | _, _ => (none, false)

end MetaCacheEntry

structure MetadataResolutionParams where
  dirQuorum : Nat
  objQuorum : Nat
  requestedVersions : Nat
  strict : Bool
  writeQuorumSlack : Nat

/-- The locals of `resolve_inner` while it walks the entries. -/
structure Resolution where
  dirExists : Nat
  selected : Option MetaCacheEntry
  objsAgree : Nat
  objsValid : Nat
  candidates : List (List FileMetaShallowVersion)

namespace Resolution

def start : Resolution := ⟨0, none, 0, 0, []⟩

def reconcile (hash : Hash) (strict : Bool) (state : Resolution) (xl : FileMeta)
    (entry : MetaCacheEntry) : Resolution :=
  let state :=
    { state with
      objsValid := state.objsValid + 1
      candidates := state.candidates ++ [xl.versions] }
  match state.selected with
  | none => { state with selected := some entry, objsAgree := 1 }
  | some selected =>
    match entry.matchesEntry hash (some selected) strict with
    | (prefer, true) => { state with selected := prefer, objsAgree := state.objsAgree + 1 }
    | (_, false) => state

def examine (hash : Hash) (strict : Bool) (state : Resolution) (entry : MetaCacheEntry) :
    Resolution :=
  if entry.name.isEmpty then state
  else if entry.isDir then
    { state with dirExists := state.dirExists + 1, selected := some entry }
  else
    match entry.xlMeta hash with
    | .error _ => state
    | .ok (xl, entry) => state.reconcile hash strict xl entry

end Resolution

def agreementQuorum (payloadQuorum : Bytes → Option Nat) (params : MetadataResolutionParams)
    (enforceWriteQuorum : Bool) (selected : MetaCacheEntry) : Nat :=
  if enforceWriteQuorum then
    match selected.cached.bind fun cached => cached.versions.head? with
    | some version =>
      max (version.writeQuorum payloadQuorum params.objQuorum - params.writeQuorumSlack)
        params.objQuorum
    | none => params.objQuorum
  else params.objQuorum

def mergeCandidates (payloadQuorum : Bytes → Option Nat) (order : VoteOrder)
    (params : MetadataResolutionParams) (enforceWriteQuorum : Bool)
    (candidates : List (List FileMetaShallowVersion)) : Option (List FileMetaShallowVersion) :=
  if enforceWriteQuorum then
    mergeFileMetaVersionsInner payloadQuorum order params.objQuorum params.strict
      params.requestedVersions true params.writeQuorumSlack candidates
  else
    mergeFileMetaVersions order params.objQuorum params.strict params.requestedVersions candidates

def mergedEntry (hash : Hash) (selected : MetaCacheEntry) (cached : FileMeta)
    (versions : List FileMetaShallowVersion) : MetaCacheEntry :=
  let mergedCached : FileMeta := { FileMeta.default with metaVer := cached.metaVer, versions := versions }
  { name := selected.name
    metadata := mergedCached.marshalMsg hash
    cached := some mergedCached
    reusable := true }

def mergeSelected (hash : Hash) (payloadQuorum : Bytes → Option Nat) (order : VoteOrder)
    (params : MetadataResolutionParams) (enforceWriteQuorum : Bool)
    (candidates : List (List FileMetaShallowVersion)) (selected : MetaCacheEntry) :
    Option MetaCacheEntry :=
  match selected.cached with
  | none => none
  | some cached =>
    match mergeCandidates payloadQuorum order params enforceWriteQuorum candidates with
    | none => none
    | some versions =>
      if versions.isEmpty then none else some (mergedEntry hash selected cached versions)

def resolveInner (hash : Hash) (payloadQuorum : Bytes → Option Nat) (order : VoteOrder)
    (params : MetadataResolutionParams) (enforceWriteQuorum : Bool)
    (entries : List (Option MetaCacheEntry)) : Option MetaCacheEntry :=
  if entries.isEmpty then none
  else
    let state := (entries.filterMap id).foldl (Resolution.examine hash params.strict) .start
    match state.selected with
    | none => none
    | some selected =>
      if selected.isDir && params.dirQuorum ≤ state.dirExists then some selected
      else if state.objsValid < params.objQuorum then none
      else if state.objsAgree = state.objsValid &&
          agreementQuorum payloadQuorum params enforceWriteQuorum selected ≤ state.objsAgree then
        some selected
      else
        mergeSelected hash payloadQuorum order params enforceWriteQuorum state.candidates selected

def resolve (hash : Hash) (order : VoteOrder) (params : MetadataResolutionParams)
    (entries : List (Option MetaCacheEntry)) : Option MetaCacheEntry :=
  resolveInner hash (fun _ => none) order params false entries

end Rustfs.Filemeta
