import Rustfs.Filemeta.VersionViews
import Rustfs.Ecstore.DiskError

/-!
# Identities and quorums of metadata replies

Two drives agree on an object version when the same digest comes out of the fields that every copy
shares. The shard index, the inline data and the replication state stay out of it. SHA-256 is a
field of the runtime.

`object_quorum_from_meta` of `ecstore/src/set_disk/metadata.rs`: the parity that the usable
replies state most often, and the read and write quorums it stands for. The hash map of the votes
is walked in any order. Log lines are left out.
-/

namespace Rustfs.Ecstore

open List Library Library.MessagePack Filemeta Utils Library.Tally

structure SetRuntime extends Runtime where
  sha256 : Bytes → Bytes

/-- For evaluations on fixed inputs: a digest that never collides. -/
def SetRuntime.sample : SetRuntime where
  toRuntime := .sample
  sha256 bytes := bytes

/-- `to_le_bytes` of a value of the given width. -/
def leBytes (width value : Nat) : Bytes :=
  (List.range width).map fun place => UInt8.ofNat (value / 256 ^ place)

def updateHashBytes (value : Bytes) : Bytes := leBytes 8 value.length ++ value

def updateHashStr (value : String) : Bytes := updateHashBytes (utf8 value)

def updateHashOptional {α : Type} (update : α → Bytes) : Option α → Bytes
  | some value => 1 :: update value
  | none => [0]

def updateHashOptionalUuid : Option Uuid → Bytes := updateHashOptional uuidBytes

def updateHashOptionalTime : Option OffsetDateTime → Bytes :=
  updateHashOptional fun time => leBytes 16 (time.unixTimestampNanos % 2 ^ 128).toNat

def updateHashOptionalU32 : Option UInt32 → Bytes :=
  updateHashOptional fun value => leBytes 4 value.toNat

def updateHashOptionalU64 : Option UInt64 → Bytes :=
  updateHashOptional fun value => leBytes 8 value.toNat

def updateHashOptionalBytes : Option Bytes → Bytes := updateHashOptional updateHashBytes

def updateHashOptionalStr : Option String → Bytes := updateHashOptional updateHashStr

def hashFlag (flag : Bool) : UInt8 := if flag then 1 else 0

def updateHashI64 (value : Int64) : Bytes := leBytes 8 (value.toInt % 2 ^ 64).toNat

/-- The entries of a map in key order. -/
def updateHashEntries (entries : List (String × String)) : Bytes :=
  leBytes 8 entries.length ++
    entries.flatMap fun entry => updateHashStr entry.1 ++ updateHashStr entry.2

def fileInfoHasEncryptionMetadata (os : Platform) (info : FileInfo) : Bool :=
  info.metadata.entries.any fun entry => isObjectEncryptionMarker os entry.1

def replicationStatusKey : String := "X-Amz-Replication-Status"

def isReplicationQuorumMetadataKey (name : String) : Bool :=
  eqIgnoreAsciiCase name replicationStatusKey ||
    match stripInternalPrefixPreservingCase name with
    | none => false
    | some suffix =>
      eqIgnoreAsciiCase suffix suffixReplicaStatus ||
        eqIgnoreAsciiCase suffix suffixReplicaTimestamp ||
        eqIgnoreAsciiCase suffix suffixReplicationStatus ||
        eqIgnoreAsciiCase suffix suffixReplicationTimestamp ||
        eqIgnoreAsciiCase suffix suffixPurgestatus ||
        startsWithIgnoreAsciiCase suffix suffixReplicationResetArnPrefix ||
        startsWithIgnoreAsciiCase suffix suffixReplicationDeleteMarkerVersionArnPrefix

def updateHashQuorumMetadataMap (metadata : Metadata) : Bytes :=
  updateHashEntries (metadata.entries.filter fun entry => !isReplicationQuorumMetadataKey entry.1)

def updateHashTargetDeleteMarkerVersions (os : Platform) (metadata : Metadata) : Bytes :=
  let versions := targetDeleteMarkerVersions os metadata
  hashFlag versions.2 :: updateHashEntries versions.1.entries

def transitionVersionStateCode : TransitionVersionState → UInt8
  | .unknown => 0
  | .knownDisabled => 1
  | .suspendedNull => 2
  | .exact => 3

def updateHashPart (part : ObjectPartInfo) : Bytes :=
  leBytes 8 part.number.toNat ++ leBytes 8 part.size.toNat ++ updateHashI64 part.actualSize ++
    updateHashStr part.etag ++ updateHashOptionalTime part.modTime ++
    updateHashOptionalBytes part.index ++ updateHashOptionalStr part.error ++
    updateHashEntries (part.checksums.elim [] KeyMap.entries)

def updateHashErasure (erasure : ErasureInfo) : Bytes :=
  leBytes 8 erasure.dataBlocks.toNat ++ leBytes 8 erasure.parityBlocks.toNat ++
    leBytes 8 erasure.distribution.length ++
    erasure.distribution.flatMap fun diskIndex => leBytes 8 diskIndex.toNat

def updateFileInfoQuorumHash (env : Runtime) (info : FileInfo) : Bytes :=
  updateHashI64 info.size ++
    [hashFlag info.deleted, hashFlag info.markDeleted, hashFlag info.expireRestored,
      hashFlag (info.isRemote env), hashFlag (fileInfoHasEncryptionMetadata env.toPlatform info),
      hashFlag info.isCompressed] ++
    updateHashOptionalTime info.modTime ++ updateHashStr info.transitionStatus ++
    updateHashStr info.transitionTier ++ updateHashStr info.transitionedObjname ++
    updateHashOptionalUuid info.transitionVersionId ++
    updateHashOptionalStr info.transitionVersion ++
    [transitionVersionStateCode info.transitionVersionState] ++
    updateHashOptionalU32 info.mode ++ updateHashOptionalU64 info.writtenByVersion ++
    updateHashOptionalUuid info.versionId ++ updateHashOptionalUuid info.dataDir ++
    updateHashOptionalBytes info.checksum ++ updateHashQuorumMetadataMap info.metadata ++
    updateHashTargetDeleteMarkerVersions env.toPlatform info.metadata ++
    leBytes 8 info.parts.length ++ info.parts.flatMap updateHashPart ++
    if !info.isCanonicalDeleteMarker && info.size ≠ 0 then updateHashErasure info.erasure else []

def fileInfoQuorumHash (env : SetRuntime) (info : FileInfo) : Bytes :=
  env.sha256 (updateFileInfoQuorumHash env.toRuntime info)

theorem quorum_hash_walk (env : SetRuntime) (walk : Walk) (info : FileInfo) :
    fileInfoQuorumHash { env with walk } info = fileInfoQuorumHash env info := by
  unfold fileInfoQuorumHash updateFileInfoQuorumHash updateHashTargetDeleteMarkerVersions
  rw [target_delete_marker_versions_walk { env.toPlatform with walk } env.toPlatform]
  rfl

/-- What one drive of the set came back with: its places in `parts_metadata` and
in `errs`. -/
structure Reply where
  info : FileInfo
  err : Option DiskError
  deriving DecidableEq

/-- The place of a drive that was not waited for. -/
def Reply.unanswered : Reply := ⟨.default, none⟩

def Reply.answered (info : FileInfo) : Reply := ⟨info, none⟩

def Reply.failed (err : DiskError) : Reply := ⟨.default, some err⟩

def fileInfoIsValidForMetadata (info : FileInfo) : Bool := info.hasValidMetadataShape

theorem geometry_blocks {info : FileInfo} (geometry : info.hasValidErasureGeometry = true) :
    0 < info.erasure.dataBlocks.toNat ∧
      info.erasure.parityBlocks.toNat ≤ info.erasure.dataBlocks.toNat := by
  unfold FileInfo.hasValidErasureGeometry FileInfo.validateErasureGeometry
    FileInfo.validateErasureGeometryWithIndex at geometry
  dsimp only at geometry
  split at geometry
  · rename_i result accepted
    split at accepted
    · cases accepted
    · rename_i shape
      simp only [Bool.or_eq_true, decide_eq_true_eq, not_or, not_lt] at shape
      omega
  · cases geometry

/-- The reply counts: no error, and metadata of a possible shape. -/
def Reply.usable (reply : Reply) : Bool :=
  reply.err.isNone && fileInfoIsValidForMetadata reply.info

/-- The orders in which the hash maps of one reduction are walked. -/
structure Walks where
  errors : Walk
  parities : Walk
  times : Walk
  etags : Walk
  identities : Walk
  properties : Walk

def Walks.all (walk : Walk) : Walks := ⟨walk, walk, walk, walk, walk, walk⟩

def statedParity (totalShards : Nat) (reply : Reply) : Int :=
  let half : Int := totalShards / 2
  let parity : Int :=
    if reply.info.erasure.parityBlocks.toNat ≤ totalShards then
      reply.info.erasure.parityBlocks.toNat
    else -1
  if reply.err.isSome then -1
  else if !fileInfoIsValidForMetadata reply.info then -1
  else if reply.info.isCanonicalDeleteMarker || reply.info.size = 0 then half
  else if parity < 0 then -1
  else if reply.info.transitionStatus = transitionComplete then
    max (totalShards - (half + 1)) parity
  else parity

def listObjectParities (replies : List Reply) : List Int :=
  replies.map (statedParity replies.length)

def parityQuorum (n defaultParityCount parity : Int) : Int :=
  if 0 < defaultParityCount ∧ parity = 0 then n / 2 + 1 else n - parity

def parityCounts (n defaultParityCount : Int) (entry : Int × Nat) : Bool :=
  entry.1 ≠ -1 && parityQuorum n defaultParityCount entry.1 ≤ entry.2

def commonParity (walk : Walk) (parities : List Int) (defaultParityCount : Int) : Int :=
  let occMap := tally (fun left right => left == right) parities
  let useful := (walk.enumerate occMap).filter (parityCounts parities.length defaultParityCount)
  match firstMax useful with
  | none => -1
  | some best => best.1

def isNotFound : DiskError → Bool
  | .fileNotFound => true
  | .fileVersionNotFound => true
  | .volumeNotFound => true
  | _ => false

def allNotFoundMetadata (errs : List (Option DiskError)) : Bool :=
  !errs.isEmpty &&
    errs.all (fun err => err.any fun err =>
      isNotFound err || err = .diskNotFound || isIgnoredErr objectOpIgnoredErrs err) &&
    errs.any fun err => err.any isNotFound

def errsOf (replies : List Reply) : List (Option DiskError) := replies.map Reply.err

/-- The first stated parity, when every healthy reply states it. -/
def consistentParity (parities : List Int) (healthyReplies : Nat) : Option Int :=
  (parities.find? fun parity => 0 ≤ parity).filter fun parity =>
    (parities.countP fun candidate => candidate = parity) = healthyReplies

def expectedReadQuorum (drives defaultParityCount : Nat) : Nat :=
  if defaultParityCount = 0 then drives else drives / 2

def quorumsOf (n parityBlocks : Int) : Int × Int :=
  let dataBlocks := n - parityBlocks
  (dataBlocks, if dataBlocks = parityBlocks then dataBlocks + 1 else dataBlocks)

def objectQuorumFromMeta (walks : Walks) (replies : List Reply) (defaultParityCount : Nat) :
    Except DiskError (Int × Int) :=
  let errs := errsOf replies
  if allNotFoundMetadata errs then
    .error (if errs.contains (some .fileVersionNotFound) then .fileVersionNotFound
      else .fileNotFound)
  else
    match reduceReadQuorumErrs walks.errors errs objectOpIgnoredErrs
        (expectedReadQuorum replies.length defaultParityCount) with
    | some err => .error err
    | none =>
      if defaultParityCount = 0 then .ok (replies.length, replies.length)
      else
        let parities := listObjectParities replies
        let parityBlocks := commonParity walks.parities parities defaultParityCount
        if parityBlocks < 0 then
          if expectedReadQuorum replies.length defaultParityCount ≤ nilCount errs ∧
              (consistentParity parities (nilCount errs)).isNone then
            .error .fileCorrupt
          else .error .erasureReadQuorum
        else .ok (quorumsOf replies.length parityBlocks)

def Supported (n defaultParityCount : Int) (parities : List Int) (parity : Int) : Prop :=
  parity ≠ -1 ∧ 0 < votes id parities parity ∧
    parityQuorum n defaultParityCount parity ≤ votes id parities parity

/-- Enough replies state the parity, and no other such parity is stated more often. Several
parities may be elected; the walk of the map then decides. -/
def Elected (n defaultParityCount : Int) (parities : List Int) (parity : Int) : Prop :=
  Supported n defaultParityCount parities parity ∧
    ∀ other, Supported n defaultParityCount parities other →
      votes id parities other ≤ votes id parities parity

section Vote

variable {parities : List Int} {defaultParityCount parity : Int} {walk : Walk}

theorem parities_agree (left right : Int) : (left == right) = true ↔ id left = id right := by
  simp

theorem useful_iff {entry : Int × Nat} :
    entry ∈ (tally (fun left right => left == right) parities).filter
        (parityCounts parities.length defaultParityCount) ↔
      Supported parities.length defaultParityCount parities entry.1 ∧
        entry.2 = votes id parities entry.1 := by
  have counted := counts_tally parities_agree parities
  rw [mem_filter]
  unfold Supported
  constructor
  · intro ⟨member, useful⟩
    obtain ⟨stated, total⟩ := counted.held entry member
    simp only [parityCounts, ne_eq, Bool.and_eq_true, decide_eq_true_eq] at useful
    simp only [id_eq] at total
    rw [← total]
    exact ⟨⟨useful.1, counted.positive entry member, useful.2⟩, rfl⟩
  · intro wanted
    obtain ⟨⟨defined, voted, enough⟩, total⟩ := wanted
    obtain ⟨parity, stated, sameParity⟩ := exists_of_votes_pos voted
    obtain ⟨found, member, foundKey⟩ := counted.reached parity stated
    have foundTotal := (counted.held found member).2
    have isEntry : found = entry := by
      apply Prod.ext
      · exact foundKey.trans sameParity
      · rw [foundTotal, total, foundKey, sameParity]
    rw [isEntry] at member
    simp only [parityCounts, ne_eq, Bool.and_eq_true, decide_eq_true_eq]
    rw [total]
    exact ⟨member, defined, enough⟩

theorem leads_useful_iff :
    (∃ entry, Leads ((tally (fun left right => left == right) parities).filter
        (parityCounts parities.length defaultParityCount)) entry ∧ entry.1 = parity) ↔
      Elected parities.length defaultParityCount parities parity := by
  constructor
  · rintro ⟨entry, leads, rfl⟩
    obtain ⟨supported, total⟩ := useful_iff.1 leads.1
    refine ⟨supported, ?_⟩
    intro other otherSupported
    rw [← total]
    exact leads.2 (other, votes id parities other) (useful_iff.2 ⟨otherSupported, rfl⟩)
  · intro elected
    refine ⟨(parity, votes id parities parity), ⟨useful_iff.2 ⟨elected.1, rfl⟩, ?_⟩, rfl⟩
    intro other member
    obtain ⟨supported, total⟩ := useful_iff.1 member
    rw [total]
    exact elected.2 other.1 supported

theorem common_parity_elected
    (common : commonParity walk parities defaultParityCount = parity) (defined : parity ≠ -1) :
    Elected parities.length defaultParityCount parities parity := by
  unfold commonParity at common
  dsimp only at common
  split at common
  · exact absurd common.symm defined
  · rename_i best picked
    have positive := (counts_tally parities_agree parities).positive
    exact leads_useful_iff.1 ⟨best, (first_max_walk _ positive).1 ⟨walk, picked⟩, common⟩

theorem common_parity_reaches
    (elected : Elected parities.length defaultParityCount parities parity) :
    ∃ walk : Walk, commonParity walk parities defaultParityCount = parity := by
  obtain ⟨entry, leads, isParity⟩ := leads_useful_iff.2 elected
  have positive := (counts_tally parities_agree parities).positive
  obtain ⟨walk, picked⟩ := (first_max_walk _ positive).2 leads
  use walk
  unfold commonParity
  dsimp only
  rw [picked]
  exact isParity

theorem common_parity_undefined :
    commonParity walk parities defaultParityCount = -1 ↔
      ∀ parity, ¬ Supported parities.length defaultParityCount parities parity := by
  have positive := (counts_tally parities_agree parities).positive
  constructor
  · intro vacant parity supported
    unfold commonParity at vacant
    dsimp only at vacant
    have member : (parity, votes id parities parity) ∈
        (walk.enumerate (tally (fun left right => left == right) parities)).filter
          (parityCounts parities.length defaultParityCount) := by
      rw [((walk.perm _).filter _).mem_iff]
      exact useful_iff.2 ⟨supported, rfl⟩
    split at vacant
    · rename_i unpicked
      rw [first_max_eq_none] at unpicked
      · rw [unpicked] at member
        cases member
      · intro entry found
        exact positive entry (walk.mem_enumerate.1 (mem_filter.1 found).1)
    · rename_i best picked
      obtain ⟨elected, _⟩ := useful_iff.1 ((first_max_walk _ positive).1 ⟨walk, picked⟩).1
      exact elected.1 vacant
  · intro unsupported
    by_contra defined
    exact unsupported _ (common_parity_elected rfl defined).1

theorem common_parity_of_unique
    (elected : Elected parities.length defaultParityCount parities parity)
    (unique : ∀ other, Elected parities.length defaultParityCount parities other → other = parity) :
    commonParity walk parities defaultParityCount = parity := by
  by_cases undefined : commonParity walk parities defaultParityCount = -1
  · exact absurd elected.1 (common_parity_undefined.1 undefined parity)
  · exact unique _ (common_parity_elected rfl undefined)

end Vote

variable {reply : Reply} {replies : List Reply} {parity : Int} {walks : Walks}
  {defaultParityCount : Nat}

theorem stated_parity_eq_neg_one {totalShards : Nat}
    (unusable : reply.usable = false) : statedParity totalShards reply = -1 := by
  unfold statedParity
  unfold Reply.usable at unusable
  cases err : reply.err with
  | some error => simp
  | none =>
    rw [err] at unusable
    simp only [Option.isNone_none, Bool.true_and] at unusable
    simp [unusable]

theorem stated_parity_ge (totalShards : Nat) (reply : Reply) :
    -1 ≤ statedParity totalShards reply := by
  unfold statedParity
  dsimp only
  split
  · omega
  split
  · omega
  split
  · omega
  split
  · omega
  split <;> omega

theorem supported_nonneg {n defaultParityCount : Int}
    (supported : Supported n defaultParityCount (listObjectParities replies) parity) :
    0 ≤ parity := by
  obtain ⟨stated, member, rfl⟩ := exists_of_votes_pos supported.2.1
  obtain ⟨reply, _, rfl⟩ := mem_map.1 member
  have bound := stated_parity_ge replies.length reply
  have defined := supported.1
  simp only [id_eq] at defined ⊢
  omega

theorem supported_answered {n defaultParityCount : Int}
    (supported : Supported n defaultParityCount (listObjectParities replies) parity) :
    ∃ reply ∈ replies, reply.usable = true := by
  obtain ⟨stated, member, rfl⟩ := exists_of_votes_pos supported.2.1
  obtain ⟨reply, inReplies, rfl⟩ := mem_map.1 member
  refine ⟨reply, inReplies, ?_⟩
  by_contra unusable
  exact supported.1 (stated_parity_eq_neg_one (Bool.eq_false_iff.2 unusable))

theorem not_all_not_found (member : reply ∈ replies)
    (answered : reply.err = none) : allNotFoundMetadata (errsOf replies) = false := by
  have silent : none ∈ errsOf replies := answered ▸ mem_map_of_mem member
  unfold allNotFoundMetadata
  rw [all_eq_false.2 ⟨none, silent, by simp⟩]
  simp

theorem length_list_object_parities (replies : List Reply) :
    (listObjectParities replies).length = replies.length :=
  length_map _

theorem object_quorum_ok {quorums : Int × Int}
    (accepted : objectQuorumFromMeta walks replies defaultParityCount = .ok quorums) :
    (defaultParityCount = 0 ∧ quorums = ((replies.length : Int), (replies.length : Int))) ∨
      (0 < defaultParityCount ∧ Calm (errsOf replies) objectOpIgnoredErrs ∧
        replies.length / 2 ≤ nilCount (errsOf replies) ∧
        ∃ parity, Elected replies.length defaultParityCount (listObjectParities replies) parity ∧
          quorums = quorumsOf replies.length parity) := by
  unfold objectQuorumFromMeta at accepted
  dsimp only at accepted
  split at accepted
  · cases accepted
  split at accepted
  · cases accepted
  rename_i reduced
  rw [reduceReadQuorumErrs, reduce_quorum_errs_none_iff] at reduced
  split at accepted
  · rename_i zero
    left
    cases accepted
    exact ⟨zero, rfl⟩
  rename_i positive
  split at accepted
  · split at accepted
    all_goals cases accepted
  right
  cases accepted
  rw [expectedReadQuorum, if_neg positive] at reduced
  refine ⟨Nat.pos_of_ne_zero positive, reduced.1, reduced.2, _, ?_, rfl⟩
  rw [← length_list_object_parities]
  exact common_parity_elected rfl (by omega)

theorem object_quorum_of_parity (member : reply ∈ replies) (answered : reply.err = none)
    (calm : Calm (errsOf replies) objectOpIgnoredErrs)
    (reached : expectedReadQuorum replies.length defaultParityCount ≤ nilCount (errsOf replies))
    (positive : 0 < defaultParityCount) (nonneg : 0 ≤ parity)
    (common : commonParity walks.parities (listObjectParities replies) defaultParityCount = parity) :
    objectQuorumFromMeta walks replies defaultParityCount =
      .ok (quorumsOf replies.length parity) := by
  unfold objectQuorumFromMeta
  dsimp only
  rw [not_all_not_found member answered, reduceReadQuorumErrs,
    (reduce_quorum_errs_none_iff _ _ _ _ _).2 ⟨calm, reached⟩]
  simp only [Bool.false_eq_true, if_false]
  rw [if_neg (by omega), common, if_neg (by omega)]

theorem object_quorum_of_zero {walks : Walks} {replies : List Reply} {reply : Reply}
    (member : reply ∈ replies) (answered : reply.err = none)
    (calm : Calm (errsOf replies) objectOpIgnoredErrs)
    (reached : replies.length ≤ nilCount (errsOf replies)) :
    objectQuorumFromMeta walks replies 0 = .ok ((replies.length : Int), (replies.length : Int)) := by
  have enough : expectedReadQuorum replies.length 0 ≤ nilCount (errsOf replies) := by
    rw [expectedReadQuorum, if_pos rfl]
    exact reached
  unfold objectQuorumFromMeta
  dsimp only
  rw [not_all_not_found member answered, reduceReadQuorumErrs,
    (reduce_quorum_errs_none_iff _ _ _ _ _).2 ⟨calm, enough⟩]
  simp

/-- The drives that answered carry the vote, and a parity of more than half the set
is elected. -/
def OverHalfElected (replies : List Reply) (defaultParityCount : Nat) : Prop :=
  Calm (errsOf replies) objectOpIgnoredErrs ∧
    replies.length / 2 ≤ nilCount (errsOf replies) ∧
    ∃ parity : Int, replies.length < 2 * parity ∧
      Elected replies.length defaultParityCount (listObjectParities replies) parity

theorem quorums_of_intersect {n : Int} (nonempty : 1 ≤ n) (nonneg : 0 ≤ parity) :
    (1 ≤ (quorumsOf n parity).1 ∧ (quorumsOf n parity).1 ≤ n ∧ (quorumsOf n parity).2 ≤ n ∧
      n < (quorumsOf n parity).1 + (quorumsOf n parity).2) ↔ 2 * parity ≤ n := by
  unfold quorumsOf
  dsimp only
  split <;> omega

/-- Whatever order the maps are walked in, the quorums of a set intersect, unless a parity of more
than half the set is elected. Without parity by default the parities are not counted at all. -/
theorem read_write_quorums_intersect_iff (replies : List Reply) (defaultParityCount : Nat)
    (nonempty : 1 ≤ replies.length) :
    (∀ (walks : Walks) (readQuorum writeQuorum : Int),
      objectQuorumFromMeta walks replies defaultParityCount = .ok (readQuorum, writeQuorum) →
        1 ≤ readQuorum ∧ readQuorum ≤ replies.length ∧ writeQuorum ≤ replies.length ∧
          replies.length < readQuorum + writeQuorum) ↔
      (defaultParityCount = 0 ∨ ¬ OverHalfElected replies defaultParityCount) := by
  have drives : (1 : Int) ≤ replies.length := by omega
  constructor
  · intro intersect
    by_cases zero : defaultParityCount = 0
    · exact .inl zero
    right
    intro ⟨calm, reached, parity, above, elected⟩
    obtain ⟨reply, member, usable⟩ := supported_answered elected.1
    have answered : reply.err = none := by
      unfold Reply.usable at usable
      simp only [Bool.and_eq_true, Option.isNone_iff_eq_none] at usable
      exact usable.1
    rw [← length_list_object_parities] at elected
    obtain ⟨walk, common⟩ := common_parity_reaches elected
    have nonneg := supported_nonneg elected.1
    have enough : expectedReadQuorum replies.length defaultParityCount ≤
        nilCount (errsOf replies) := by
      rw [expectedReadQuorum, if_neg zero]
      exact reached
    have accepted : objectQuorumFromMeta (.all walk) replies defaultParityCount =
        .ok (quorumsOf replies.length parity) :=
      object_quorum_of_parity member answered calm enough (Nat.pos_of_ne_zero zero) nonneg common
    have half := (quorums_of_intersect drives nonneg).1 (intersect (.all walk) _ _ accepted)
    omega
  · intro condition walks readQuorum writeQuorum accepted
    rcases object_quorum_ok accepted with ⟨_, whole⟩ | ⟨positive, calm, reached, parity, elected, quorums⟩
    · cases whole
      omega
    · have within : 2 * parity ≤ replies.length := by
        by_contra above
        rcases condition with zero | sound
        · omega
        · exact sound ⟨calm, reached, parity, by omega, elected⟩
      have bounds := (quorums_of_intersect drives (supported_nonneg elected.1)).2 within
      rw [← quorums] at bounds
      exact bounds

/-- An object of one byte, as the first shard of the given layout. -/
def sampleInfo (dataBlocks parityBlocks : UInt64) : FileInfo :=
  { FileInfo.default with
    size := 1
    erasure :=
      { ErasureInfo.default with
        dataBlocks, parityBlocks
        blockSize := 1048576
        index := 1
        distribution := (List.range (dataBlocks + parityBlocks).toNat).map fun place =>
          UInt64.ofNat (place + 1) } }

/-- Four drives that hold shards of a two and two layout. -/
theorem half_parity_quorums_intersect :
    1 ≤ (List.replicate 4 (Reply.answered (sampleInfo 2 2))).length ∧
      ∀ (walks : Walks) (readQuorum writeQuorum : Int),
        objectQuorumFromMeta walks (List.replicate 4 (.answered (sampleInfo 2 2))) 2 =
            .ok (readQuorum, writeQuorum) →
          1 ≤ readQuorum ∧ readQuorum ≤ 4 ∧ writeQuorum ≤ 4 ∧ 4 < readQuorum + writeQuorum := by
  refine ⟨by decide, (read_write_quorums_intersect_iff _ 2 (by decide)).2 (.inr ?_)⟩
  intro ⟨_, _, parity, above, elected⟩
  obtain ⟨stated, member, isParity⟩ := exists_of_votes_pos elected.1.2.1
  have parities : listObjectParities (List.replicate 4 (.answered (sampleInfo 2 2))) =
      [2, 2, 2, 2] := by decide
  rw [parities] at member
  simp only [mem_cons, not_mem_nil, or_false, or_self] at member
  simp only [length_replicate, Nat.cast_ofNat] at above
  simp only [id_eq] at isParity
  omega

/-- Shards of a four and four layout on a set of four drives: no drive has to answer
a read or a write. -/
theorem foreign_layout_no_quorums :
    ¬ ∀ (walks : Walks) (replies : List Reply) (defaultParityCount : Nat)
        (readQuorum writeQuorum : Int),
      1 ≤ replies.length → defaultParityCount ≤ replies.length / 2 →
        objectQuorumFromMeta walks replies defaultParityCount = .ok (readQuorum, writeQuorum) →
          1 ≤ readQuorum ∧ readQuorum ≤ replies.length ∧ writeQuorum ≤ replies.length ∧
            replies.length < readQuorum + writeQuorum := by
  intro claim
  have vacant : objectQuorumFromMeta (.all .sorted) (List.replicate 4 (.answered (sampleInfo 4 4))) 2 =
      .ok (0, 0) := by decide
  have bounds := claim _ _ _ _ _ (by decide) (by decide) vacant
  omega

end Rustfs.Ecstore
