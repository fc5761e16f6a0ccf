import Rustfs.Library.KeyMap
import Mathlib.Data.String.Basic

/-!
# Internal metadata keys

Every internal key exists under two prefixes. Writers write both, readers accept either,
and the string-valued readers also scan for other spellings in ASCII case; the
byte-valued ones do not. Unicode lowercasing and the order in which a `HashMap` is
walked come from the platform. Header names and lookups that no other module asks for
are left out.
-/

namespace Rustfs.Utils

open Library

def asciiLowercase (text : String) : String := String.ofList (text.toList.map Char.toLower)

def isAscii (text : String) : Bool := text.toList.all fun c => c.val < 128

structure Platform where
  walk : Walk
  toLowercase : String → String
  lowercaseAscii : ∀ text, isAscii text = true → toLowercase text = asciiLowercase text

abbrev Metadata := KeyMap String String

abbrev SysMetadata := KeyMap String (List UInt8)

/-- `str::len`, in bytes. -/
def byteLen (text : String) : Nat := text.utf8ByteSize

def rustfsInternalPrefix : String := "x-rustfs-internal-"
def minioInternalPrefix : String := "x-minio-internal-"

def suffixInlineData : String := "inline-data"
def suffixDataMov : String := "data-mov"
def suffixHealing : String := "healing"
def suffixCompression : String := "compression"
def suffixCrc : String := "crc"
def suffixPartChecksums : String := "part-checksums"
def suffixTransitionStatus : String := "transition-status"
def suffixTransitionedObjectname : String := "transitioned-object"
def suffixTransitionedVersionId : String := "transitioned-versionID"
def suffixTransitionedVersionState : String := "transitioned-version-state"
def suffixTransitionTier : String := "transition-tier"
def suffixTransitionTierDestinationId : String := "transition-tier-destination-id"
def suffixRestoreOperationId : String := "restore-operation-id"
def suffixRestoreWorkerLock : String := "restore-worker-lock"
def suffixBucketIncarnationId : String := "bucket-incarnation-id"
def suffixFreeVersion : String := "free-version"
def suffixPurgestatus : String := "purgestatus"
def suffixReplicaStatus : String := "replica-status"
def suffixReplicaTimestamp : String := "replica-timestamp"
def suffixReplicationStatus : String := "replication-status"
def suffixReplicationTimestamp : String := "replication-timestamp"
def suffixReplicationReset : String := "replication-reset"
def suffixReplicationResetArnPrefix : String := "replication-reset-"
def suffixTierFvId : String := "tier-free-versionID"
def suffixTierFvMarker : String := "tier-free-marker"
def suffixTierSkipFvId : String := "tier-skip-fvid"
def suffixReplicationDeleteMarkerVersionArnPrefix : String := "replication-delete-marker-version-"

def eqIgnoreAsciiCase (left right : String) : Bool :=
  left.toList.map Char.toLower = right.toList.map Char.toLower

def startsWithIgnoreAsciiCase (text start : String) : Bool :=
  (start.toList.map Char.toLower).isPrefixOf (text.toList.map Char.toLower)

def dropPrefix (text start : String) : String := String.ofList (text.toList.drop start.toList.length)

/-- The prefix is matched in any case; the rest is lowercased and compared with
the suffix as it stands, so a suffix with capitals is never matched. -/
def internalKeyEq (os : Platform) (key start suffix : String) : Bool :=
  if !isAscii key then os.toLowercase key = start ++ suffix
  else startsWithIgnoreAsciiCase key start && asciiLowercase (dropPrefix key start) = suffix

def isInternalKey (key : String) : Bool :=
  startsWithIgnoreAsciiCase key rustfsInternalPrefix ||
    startsWithIgnoreAsciiCase key minioInternalPrefix

def hasInternalSuffix (os : Platform) (key suffix : String) : Bool :=
  internalKeyEq os key rustfsInternalPrefix suffix ||
    internalKeyEq os key minioInternalPrefix suffix

def stripInternalPrefixPreservingCase (key : String) : Option String :=
  if startsWithIgnoreAsciiCase key rustfsInternalPrefix then
    some (dropPrefix key rustfsInternalPrefix)
  else if startsWithIgnoreAsciiCase key minioInternalPrefix then
    some (dropPrefix key minioInternalPrefix)
  else none

def stripInternalPrefix (os : Platform) (key : String) : Option String :=
  (stripInternalPrefixPreservingCase key).map os.toLowercase

def internalKeyStripSuffixPrefix (key suffixPrefix : String) : Option String :=
  (stripInternalPrefixPreservingCase key).bind fun rest =>
    if startsWithIgnoreAsciiCase rest suffixPrefix then some (dropPrefix rest suffixPrefix)
    else none

def rustfsKey (suffix : String) : String := rustfsInternalPrefix ++ suffix

def minioKey (suffix : String) : String := minioInternalPrefix ++ suffix

/-- The key is one of the two keys of the suffix, in any ASCII case. -/
def isEitherKey (suffix key : String) : Bool :=
  eqIgnoreAsciiCase key (rustfsKey suffix) || eqIgnoreAsciiCase key (minioKey suffix)

section Maps

variable {V : Type}

def insertBoth (map : KeyMap String V) (suffix : String) (value : V) : KeyMap String V :=
  (map.insert (rustfsKey suffix) value).insert (minioKey suffix) value

def removeBoth (map : KeyMap String V) (suffix : String) : KeyMap String V :=
  (map.remove (rustfsKey suffix)).remove (minioKey suffix)

def getEither (map : KeyMap String V) (suffix : String) : Option V :=
  (map.get (rustfsKey suffix)).or (map.get (minioKey suffix))

/-- The value every spelling of the key agrees on; none when one of them is empty
or two of them differ. -/
def consistentFrom [DecidableEq V] (isEmpty : V → Bool) (suffix : String) :
    Option V → List (String × V) → Option V
  | value, [] => value
  | value, (key, candidate) :: rest =>
    if !isEitherKey suffix key then consistentFrom isEmpty suffix value rest
    else if isEmpty candidate || value.any (· ≠ candidate) then none
    else consistentFrom isEmpty suffix (some candidate) rest

end Maps

def insertStr (map : Metadata) (suffix value : String) : Metadata := insertBoth map suffix value

def getStr (os : Platform) (map : Metadata) (suffix : String) : Option String :=
  (getEither map suffix).or
    (((os.walk.enumerate map.entries).find? fun entry => isEitherKey suffix entry.1).map Prod.snd)

def getConsistentStr (os : Platform) (map : Metadata) (suffix : String) : Option String :=
  consistentFrom String.isEmpty suffix none (os.walk.enumerate map.entries)

def containsKeyStr (map : Metadata) (suffix : String) : Bool :=
  (getEither map suffix).isSome || map.entries.any fun entry => isEitherKey suffix entry.1

def removeStr (map : Metadata) (suffix : String) : Metadata :=
  (removeBoth map suffix).filter fun entry => !isEitherKey suffix entry.1

def insertBytes (map : SysMetadata) (suffix : String) (value : List UInt8) : SysMetadata :=
  insertBoth map suffix value

def getBytes (map : SysMetadata) (suffix : String) : Option (List UInt8) := getEither map suffix

def getConsistentBytes (os : Platform) (map : SysMetadata) (suffix : String) :
    Option (List UInt8) :=
  consistentFrom List.isEmpty suffix none (os.walk.enumerate map.entries)

def containsKeyBytes (map : SysMetadata) (suffix : String) : Bool := (getEither map suffix).isSome

def removeBytes (map : SysMetadata) (suffix : String) : SysMetadata := removeBoth map suffix

def maxEntries : Nat := 1000
def maxArnLen : Nat := 1024
def maxVersionIdLen : Nat := 1024

structure VersionsByArn where
  versions : KeyMap String (Option String)
  corrupt : Bool

def VersionsByArn.collect (arnPrefix : String) (found : VersionsByArn) (entry : String × String) :
    VersionsByArn :=
  match internalKeyStripSuffixPrefix entry.1 arnPrefix with
  | none => found
  | some arn =>
    if !"arn:".toList.isPrefixOf arn.toList || maxArnLen < byteLen arn || entry.2.isEmpty ||
        maxVersionIdLen < byteLen entry.2 then
      { found with corrupt := true }
    else
      match found.versions.get arn with
      | none => { found with versions := found.versions.insert arn (some entry.2) }
      | some held =>
        if held = some entry.2 then found
        else ⟨found.versions.insert arn none, true⟩

namespace VersionsByArn

/-- What a scan keeps once a key names a target: the version, or nothing after two
that differ. -/
def record (found : VersionsByArn) (arn value : String) : VersionsByArn :=
  match found.versions.get arn with
  | none => { found with versions := found.versions.insert arn (some value) }
  | some held =>
    if held = some value then found else ⟨found.versions.insert arn none, true⟩

theorem collect_cases (arnPrefix : String) (entry : String × String) :
    (∀ found, collect arnPrefix found entry = found) ∨
      (∀ found, collect arnPrefix found entry = { found with corrupt := true }) ∨
      ∃ arn, ∀ found, collect arnPrefix found entry = record found arn entry.2 := by
  unfold collect
  cases internalKeyStripSuffixPrefix entry.1 arnPrefix with
  | none =>
    left
    intro found
    rfl
  | some arn =>
    right
    by_cases refused : (!"arn:".toList.isPrefixOf arn.toList || maxArnLen < byteLen arn ||
        entry.2.isEmpty || maxVersionIdLen < byteLen entry.2) = true
    · left
      intro found
      exact if_pos refused
    · right
      use arn
      intro found
      exact if_neg refused

theorem record_corrupt (found : VersionsByArn) (arn value : String) :
    record { found with corrupt := true } arn value =
      { record found arn value with corrupt := true } := by
  unfold record
  cases found.versions.get arn with
  | none => rfl
  | some held =>
    dsimp only
    split <;> rfl

theorem record_get (found : VersionsByArn) (arn value wanted : String) :
    (record found arn value).versions.get wanted =
      if wanted = arn then some ((found.versions.get arn).elim (some value) fun held =>
        if held = some value then some value else none)
      else found.versions.get wanted := by
  unfold record
  cases held : found.versions.get arn with
  | none =>
    exact KeyMap.get_insert _ _ _ _
  | some version =>
    dsimp only [Option.elim]
    by_cases kept : version = some value
    · rw [if_pos kept, if_pos kept]
      split
      · rename_i same
        rw [same, held, kept]
      · rfl
    · rw [if_neg kept, if_neg kept]
      exact KeyMap.get_insert _ _ _ _

theorem record_corrupt_iff (found : VersionsByArn) (arn value : String) :
    (record found arn value).corrupt =
      (found.corrupt || (found.versions.get arn).any fun held => held ≠ some value) := by
  unfold record
  cases held : found.versions.get arn with
  | none => simp
  | some version =>
    by_cases kept : version = some value
    all_goals simp [kept]

theorem ext_found {left right : VersionsByArn}
    (versions : ∀ arn, left.versions.get arn = right.versions.get arn)
    (corrupt : left.corrupt = right.corrupt) : left = right := by
  cases left
  cases right
  simp only [mk.injEq]
  exact ⟨KeyMap.ext_get versions, corrupt⟩

theorem record_comm (found : VersionsByArn) (arn arn' value value' : String) :
    record (record found arn value) arn' value' = record (record found arn' value') arn value := by
  by_cases same : arn = arn'
  · subst same
    apply ext_found
    · intro wanted
      simp only [record_get, if_true, Option.elim_some]
      split
      · cases found.versions.get arn <;> simp only [Option.elim] <;> grind
      · rfl
    · simp only [record_corrupt_iff, record_get, if_true, Option.any_some]
      cases found.versions.get arn <;> simp only [Option.elim, Option.any] <;> grind
  · have other : arn' ≠ arn := fun eq => same eq.symm
    apply ext_found
    · intro wanted
      simp only [record_get, if_neg same, if_neg other]
      split
      · rename_i isSecond
        rw [if_neg (isSecond ▸ other)]
      · rfl
    · simp only [record_corrupt_iff, record_get, if_neg same, if_neg other, Bool.or_assoc]
      rw [Bool.or_comm (Option.any _ _)]

theorem collect_comm (arnPrefix : String) (found : VersionsByArn) (left right : String × String) :
    collect arnPrefix (collect arnPrefix found left) right =
      collect arnPrefix (collect arnPrefix found right) left := by
  rcases collect_cases arnPrefix left with passes | spoils | ⟨arn, records⟩
  · rw [passes, passes]
  · rcases collect_cases arnPrefix right with passes' | spoils' | ⟨arn', records'⟩
    · rw [passes', passes']
    · rw [spoils, spoils', spoils', spoils]
    · rw [spoils, records', records', spoils, record_corrupt]
  · rcases collect_cases arnPrefix right with passes' | spoils' | ⟨arn', records'⟩
    · rw [passes', passes']
    · rw [records, spoils', spoils', records, record_corrupt]
    · rw [records, records', records', records, record_comm]

end VersionsByArn

/-- The cap is applied after the scan, to the least targets in key order. -/
def internalVersionsByArn (os : Platform) (map : Metadata) (arnPrefix : String) :
    Metadata × Bool :=
  let found := (os.walk.enumerate map.entries).foldl (VersionsByArn.collect arnPrefix)
    ⟨.empty, false⟩
  let kept := found.versions.entries.take maxEntries
  (.ofEntries (kept.filterMap fun entry => entry.2.map fun version => (entry.1, version)),
    found.corrupt || maxEntries < found.versions.entries.length)

def targetDeleteMarkerVersions (os : Platform) (map : Metadata) : Metadata × Bool :=
  internalVersionsByArn os map suffixReplicationDeleteMarkerVersionArnPrefix

theorem target_delete_marker_versions_walk (os os' : Platform) (map : Metadata) :
    targetDeleteMarkerVersions os map = targetDeleteMarkerVersions os' map := by
  have scans : (os.walk.enumerate map.entries).foldl
        (VersionsByArn.collect suffixReplicationDeleteMarkerVersionArnPrefix) ⟨.empty, false⟩ =
      (os'.walk.enumerate map.entries).foldl
        (VersionsByArn.collect suffixReplicationDeleteMarkerVersionArnPrefix) ⟨.empty, false⟩ := by
    apply ((os.walk.perm _).trans (os'.walk.perm _).symm).foldl_eq'
    intro left _ right _ found
    exact VersionsByArn.collect_comm _ _ _ _
  unfold targetDeleteMarkerVersions internalVersionsByArn
  rw [scans]

def rustfsEncryptionPrefix : String := "x-rustfs-encryption-"
def minioEncryptionPrefix : String := "x-minio-encryption-"
def minioInternalEncryptionPrefix : String := "x-minio-internal-server-side-encryption-"
def minioInternalEncryptedMultipart : String := "x-minio-internal-encrypted-multipart"
def rustfsEncryptionOriginalSize : String := "x-rustfs-encryption-original-size"
def minioEncryptionOriginalSize : String := "x-minio-encryption-original-size"

def sseHeaders : List String :=
  ["x-amz-server-side-encryption",
    "x-amz-server-side-encryption-aws-kms-key-id",
    "x-amz-server-side-encryption-context",
    "x-amz-server-side-encryption-customer-algorithm",
    "x-amz-server-side-encryption-customer-key",
    "x-amz-server-side-encryption-customer-key-md5"]

def isSseHeader (os : Platform) (headerKey : String) : Bool :=
  sseHeaders.contains (os.toLowercase headerKey)

def startsWith (text start : String) : Bool := start.toList.isPrefixOf text.toList

def isEncryptionMetadataKey (os : Platform) (key : String) : Bool :=
  if isAscii key then
    startsWithIgnoreAsciiCase key rustfsEncryptionPrefix ||
      startsWithIgnoreAsciiCase key minioEncryptionPrefix ||
      startsWithIgnoreAsciiCase key minioInternalEncryptionPrefix ||
      eqIgnoreAsciiCase key minioInternalEncryptedMultipart
  else
    let lower := os.toLowercase key
    startsWith lower rustfsEncryptionPrefix || startsWith lower minioEncryptionPrefix ||
      startsWith lower minioInternalEncryptionPrefix || lower = minioInternalEncryptedMultipart

def isObjectEncryptionMarker (os : Platform) (key : String) : Bool :=
  (isEncryptionMetadataKey os key && !eqIgnoreAsciiCase key rustfsEncryptionOriginalSize &&
    !eqIgnoreAsciiCase key minioEncryptionOriginalSize) || isSseHeader os key

end Rustfs.Utils
