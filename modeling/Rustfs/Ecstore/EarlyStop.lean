import Rustfs.Ecstore.MetadataQuorum
import Rustfs.Ecstore.QuorumSelect

/-!
# Early stop against the full fan-out

A vector of replies in which a quorum copies one reply and fewer drives than that say anything
else. The copies agree on every field the reductions look at, so that the reply they copy is
selected; the one exception is a time of exactly the Unix epoch, which the reduction of times
takes for no time at all.

From this follows when a fan-out that stops early resolves to what all replies would have given,
for any order of arrival. Late replies after the stop change nothing and are not fed.
-/

namespace Rustfs.Ecstore

open List Library Library.MessagePack Library.Tally Filemeta MetadataQuorumAccumulator

theorem matches_fields {candidate info : FileInfo}
    (agrees : metadataEarlyStopCandidateMatches candidate info = true) :
    candidate.versionId = info.versionId ∧ candidate.deleted = info.deleted ∧
      candidate.markDeleted = info.markDeleted ∧
      candidate.transitionStatus = info.transitionStatus ∧
      candidate.transitionedObjname = info.transitionedObjname ∧
      candidate.transitionTier = info.transitionTier ∧
      candidate.transitionVersionId = info.transitionVersionId ∧
      candidate.transitionVersion = info.transitionVersion ∧
      candidate.transitionVersionState = info.transitionVersionState ∧
      candidate.expireRestored = info.expireRestored ∧ candidate.size = info.size ∧
      candidate.modTime = info.modTime ∧ candidate.mode = info.mode ∧
      candidate.writtenByVersion = info.writtenByVersion ∧ candidate.metadata = info.metadata ∧
      candidate.parts = info.parts ∧ candidate.checksum = info.checksum ∧
      candidate.dataDir = info.dataDir ∧
      candidate.erasure.dataBlocks = info.erasure.dataBlocks ∧
      candidate.erasure.parityBlocks = info.erasure.parityBlocks ∧
      candidate.erasure.distribution = info.erasure.distribution := by
  unfold metadataEarlyStopCandidateMatches at agrees
  grind

theorem marker_shape {info : FileInfo} (isMarker : info.isCanonicalDeleteMarker = true) :
    info.size = 0 ∧ info.erasure.dataBlocks = 0 ∧ info.erasure.parityBlocks = 0 := by
  unfold FileInfo.isCanonicalDeleteMarker FileInfo.validateDeleteMarkerShape at isMarker
  dsimp only at isMarker
  split at isMarker
  · rename_i result accepted
    split at accepted
    · rename_i shape
      simp only [Bool.and_eq_true, FileInfo.erasureEmpty, decide_eq_true_eq] at shape
      grind
    · cases accepted
  · cases isMarker

theorem marker_size {info : FileInfo} (isMarker : info.isCanonicalDeleteMarker = true) :
    info.size = 0 :=
  (marker_shape isMarker).1

theorem matches_quorum_hash (env : SetRuntime) {candidate info : FileInfo}
    (agrees : metadataEarlyStopCandidateMatches candidate info = true) :
    fileInfoQuorumHash env candidate = fileInfoQuorumHash env info := by
  obtain ⟨versionId, deleted, markDeleted, status, objname, tier, tierVersionId, tierVersion,
    versionState, expireRestored, size, modTime, mode, writtenBy, metadata, parts, checksum,
    dataDir, dataBlocks, parityBlocks, distribution⟩ := matches_fields agrees
  have erasures : (if !candidate.isCanonicalDeleteMarker && candidate.size ≠ 0 then
        updateHashErasure candidate.erasure else []) =
      if !info.isCanonicalDeleteMarker && info.size ≠ 0 then updateHashErasure info.erasure
      else [] := by
    by_cases empty : info.size = 0
    · simp [size, empty]
    · have notMarker : info.isCanonicalDeleteMarker = false :=
        Bool.eq_false_iff.2 fun isMarker => empty (marker_size isMarker)
      have candidateNotMarker : candidate.isCanonicalDeleteMarker = false :=
        Bool.eq_false_iff.2 fun isMarker => empty (size ▸ marker_size isMarker)
      rw [notMarker, candidateNotMarker, size]
      unfold updateHashErasure
      rw [dataBlocks, parityBlocks, distribution]
  unfold fileInfoQuorumHash updateFileInfoQuorumHash
  rw [erasures]
  unfold fileInfoHasEncryptionMetadata FileInfo.isRemote FileInfo.isCompressed
  rw [versionId, deleted, markDeleted, status, objname, tier, tierVersionId, tierVersion,
    versionState, expireRestored, size, modTime, mode, writtenBy, metadata, parts, checksum,
    dataDir]

theorem time_of_nanos {left right : OffsetDateTime}
    (same : left.unixTimestampNanos = right.unixTimestampNanos) : left = right := by
  cases right
  cases same
  rfl

def isCopyOf (candidate : FileInfo) (reply : Reply) : Bool :=
  reply.usable && metadataEarlyStopCandidateMatches candidate reply.info

def isOtherThan (candidate : FileInfo) (reply : Reply) : Bool :=
  !isCopyOf candidate reply && reply.info ≠ .default

/-- A quorum of the replies are copies, and fewer hold anything else. A slot without metadata
counts for neither. -/
structure Dominated (candidate : FileInfo) (replies : List Reply) (quorum : Nat) : Prop where
  positive : 1 ≤ quorum
  reached : quorum ≤ replies.countP (isCopyOf candidate)
  outvoted : replies.countP (isOtherThan candidate) < quorum

section Copies

variable {candidate : FileInfo} {replies : List Reply} {quorum : Nat} {reply : Reply}

theorem copy_usable (copied : isCopyOf candidate reply = true) :
    reply.err = none ∧ fileInfoIsValidForMetadata reply.info = true ∧
      metadataEarlyStopCandidateMatches candidate reply.info = true := by
  unfold isCopyOf Reply.usable at copied
  simp only [Bool.and_eq_true, Option.isNone_iff_eq_none] at copied
  exact ⟨copied.1.1, copied.1.2, copied.2⟩

theorem default_invalid : fileInfoIsValidForMetadata .default = false := by decide

theorem copy_info_mod_time (copied : isCopyOf candidate reply = true) :
    reply.info.modTime = candidate.modTime := by
  have fields := matches_fields (copy_usable copied).2.2
  exact fields.2.2.2.2.2.2.2.2.2.2.2.1.symm

theorem copy_mod_time (copied : isCopyOf candidate reply = true) :
    reply.modTime = candidate.modTime := by
  unfold Reply.modTime
  rw [(copy_usable copied).1]
  exact copy_info_mod_time copied

theorem copy_info_etag (copied : isCopyOf candidate reply = true) :
    reply.info.getEtag = candidate.getEtag := by
  obtain ⟨_, _, agrees⟩ := copy_usable copied
  have metadata : candidate.metadata = reply.info.metadata := by
    have fields := matches_fields agrees
    grind
  unfold FileInfo.getEtag
  rw [metadata]

theorem copy_etag (copied : isCopyOf candidate reply = true) : reply.etag = candidate.getEtag := by
  unfold Reply.etag
  rw [(copy_usable copied).1]
  exact copy_info_etag copied

/-- The drives can agree on the candidate: its time is not the one that stands for no
time, or it has an etag. -/
def Datable (candidate : FileInfo) : Prop :=
  candidate.modTime ≠ some .unixEpoch ∨ candidate.getEtag.isSome = true

theorem identity_votes_replies (env : SetRuntime) (agreed : Agreed) (hash : Bytes) :
    identityVotes env (replies.map Reply.info) agreed hash =
      replies.countP fun reply =>
        agreed.admits reply.info && fileInfoQuorumHash env reply.info = hash := by
  unfold identityVotes admittedHashes votes
  rw [countP_map, countP_filter, countP_map]
  apply countP_congr
  intro reply _
  simp [and_comm]

namespace Dominated

variable (dominated : Dominated candidate replies quorum)

include dominated

theorem reaches {holds : Reply → Bool}
    (copied : ∀ reply, isCopyOf candidate reply = true → holds reply = true) :
    quorum ≤ replies.countP holds :=
  le_trans dominated.reached (countP_mono_left fun reply _ => copied reply)

theorem misses {holds : Reply → Bool} (other : ∀ reply, holds reply = true →
      isCopyOf candidate reply = false ∧ reply.info ≠ .default) :
    replies.countP holds < quorum := by
  apply lt_of_le_of_lt _ dominated.outvoted
  apply countP_mono_left
  intro reply _ said
  obtain ⟨notCopy, present⟩ := other reply said
  simp [isOtherThan, notCopy, present]

theorem time_short {nanos : Int}
    (apart : candidate.modTime.map OffsetDateTime.unixTimestampNanos ≠ some nanos) :
    timeVotes (listObjectModtimes replies) nanos < quorum := by
  unfold timeVotes listObjectModtimes
  rw [countP_map]
  apply dominated.misses
  intro reply said
  simp only [Function.comp_apply, decide_eq_true_eq] at said
  constructor
  · apply Bool.eq_false_iff.2
    intro copied
    rw [copy_mod_time copied] at said
    exact apart said
  · intro blank
    unfold Reply.modTime at said
    rw [blank] at said
    split at said
    all_goals cases said

theorem etag_short {etag : String} (apart : candidate.getEtag ≠ some etag) :
    etagVotes (listObjectEtags replies) etag < quorum := by
  unfold etagVotes listObjectEtags
  rw [countP_map]
  apply dominated.misses
  intro reply said
  simp only [Function.comp_apply, decide_eq_true_eq] at said
  constructor
  · apply Bool.eq_false_iff.2
    intro copied
    rw [copy_etag copied] at said
    exact apart said
  · intro blank
    unfold Reply.etag at said
    rw [blank] at said
    split at said
    · cases said
    · cases said

theorem agreed_time (walks : Walks) :
    (agreedOn walks replies quorum).modTime =
      candidate.modTime.filter fun time => time ≠ .unixEpoch := by
  have apartFrom : ∀ nanos, candidate.modTime.map OffsetDateTime.unixTimestampNanos ≠ some nanos →
      timeVotes (listObjectModtimes replies) nanos < quorum :=
    fun nanos apart => dominated.time_short apart
  unfold agreedOn
  cases time : candidate.modTime with
  | none =>
    rw [time] at apartFrom
    exact common_time_none _ dominated.positive fun nanos => apartFrom nanos (by simp)
  | some carried =>
    rw [time] at apartFrom
    have reached : quorum ≤
        timeVotes (listObjectModtimes replies) carried.unixTimestampNanos := by
      unfold timeVotes listObjectModtimes
      rw [countP_map]
      apply dominated.reaches
      intro reply copied
      simp [copy_mod_time copied, time]
    rw [common_time_of_quorum walks.times dominated.positive reached
      fun other apart => apartFrom other (by simpa using Ne.symm apart)]
    by_cases epoch : carried = .unixEpoch
    · rw [epoch]
      rfl
    · have nonzero : carried.unixTimestampNanos ≠ 0 :=
        fun zero => epoch (time_of_nanos zero)
      rw [if_neg nonzero, from_unix_timestamp_nanos_self]
      simp [Option.filter, epoch]

theorem agreed_etag (walks : Walks) (timeless : (agreedOn walks replies quorum).modTime = none) :
    (agreedOn walks replies quorum).etag = candidate.getEtag := by
  unfold agreedOn at timeless ⊢
  dsimp only at timeless ⊢
  rw [timeless]
  cases etag : candidate.getEtag with
  | none =>
    apply common_etag_none _ dominated.positive
    intro other
    exact dominated.etag_short (by simp [etag])
  | some held =>
    apply common_etag_of_quorum _ dominated.positive
    · unfold etagVotes listObjectEtags
      rw [countP_map]
      apply dominated.reaches
      intro reply copied
      simp [copy_etag copied, etag]
    · intro other apart
      exact dominated.etag_short (by simp [etag, Ne.symm apart])

theorem copy_admitted (walks : Walks) (datable : Datable candidate) {reply : Reply}
    (copied : isCopyOf candidate reply = true) :
    (agreedOn walks replies quorum).admits reply.info = true := by
  obtain ⟨_, valid, _⟩ := copy_usable copied
  have sameTime := copy_info_mod_time copied
  have time := dominated.agreed_time walks
  unfold Agreed.admits
  rw [valid, Bool.true_and]
  by_cases epoch : candidate.modTime = some .unixEpoch
  · have timeless : (agreedOn walks replies quorum).modTime = none := by
      rw [time, epoch]
      rfl
    have etag := dominated.agreed_etag walks timeless
    have tagged : candidate.getEtag.isSome = true := datable.resolve_left fun apart => apart epoch
    rw [timeless, etag, tagged, copy_info_etag copied]
    simp
  · have kept : candidate.modTime.filter (fun time => time ≠ .unixEpoch) = candidate.modTime := by
      cases held : candidate.modTime with
      | none => rfl
      | some carried =>
        have notEpoch : carried ≠ .unixEpoch := fun same => epoch (by rw [held, same])
        simp [Option.filter, notEpoch]
    rw [time, kept, sameTime]
    simp

theorem identity_short (env : SetRuntime) (agreed : Agreed) {hash : Bytes}
    (apart : hash ≠ fileInfoQuorumHash env candidate ∨
      ∀ reply, isCopyOf candidate reply = true → agreed.admits reply.info = false) :
    identityVotes env (replies.map Reply.info) agreed hash < quorum := by
  rw [identity_votes_replies]
  apply dominated.misses
  intro reply said
  simp only [Bool.and_eq_true, decide_eq_true_eq] at said
  constructor
  · apply Bool.eq_false_iff.2
    intro copied
    rcases apart with otherHash | refused
    · apply otherHash
      rw [← said.2, matches_quorum_hash env (copy_usable copied).2.2]
    · rw [refused reply copied] at said
      cases said.1
  · intro blank
    have valid := said.1
    unfold Agreed.admits at valid
    rw [blank, default_invalid] at valid
    cases valid

theorem found (env : SetRuntime) (walks : Walks) (datable : Datable candidate) :
    ∃ info ∈ replies.map Reply.info, ∃ copy,
      (agreedOn walks replies quorum).admits info = true ∧
      fileInfoQuorumHash env info = fileInfoQuorumHash env candidate ∧
      findFileInfoInQuorum env walks (replies.map Reply.info) (agreedOn walks replies quorum)
        quorum = .ok copy ∧ CopyOf info copy := by
  rcases @find_outcome env (replies.map Reply.info) (agreedOn walks replies quorum) quorum walks
      dominated.positive with ⟨info, member, admits, wins, copy, found, copied⟩ | ⟨_, short⟩
  · refine ⟨info, member, copy, admits, ?_, found, copied⟩
    by_contra apart
    exact absurd wins.2 (not_le.2 (dominated.identity_short env _ (.inl apart)))
  · have reached : quorum ≤ identityVotes env (replies.map Reply.info)
        (agreedOn walks replies quorum) (fileInfoQuorumHash env candidate) := by
      rw [identity_votes_replies]
      apply dominated.reaches
      intro reply copied
      rw [dominated.copy_admitted walks datable copied,
        matches_quorum_hash env (copy_usable copied).2.2]
      simp
    exact absurd reached (not_le.2 (short _))

theorem missed (env : SetRuntime) (walks : Walks) (undatable : ¬ Datable candidate) :
    findFileInfoInQuorum env walks (replies.map Reply.info) (agreedOn walks replies quorum)
      quorum = .error .erasureReadQuorum := by
  simp only [Datable, not_or, ne_eq, Decidable.not_not] at undatable
  obtain ⟨epoch, untagged⟩ := undatable
  have timeless : (agreedOn walks replies quorum).modTime = none := by
    rw [dominated.agreed_time walks, epoch]
    rfl
  have refused : ∀ reply, isCopyOf candidate reply = true →
      (agreedOn walks replies quorum).admits reply.info = false := by
    intro reply copied
    unfold Agreed.admits
    rw [dominated.agreed_etag walks timeless, timeless, copy_info_mod_time copied, epoch]
    simp [untagged]
  rcases @find_outcome env (replies.map Reply.info) (agreedOn walks replies quorum) quorum walks
      dominated.positive with ⟨info, _, _, wins, _⟩ | ⟨missed, _⟩
  · exact absurd wins.2 (not_le.2 (dominated.identity_short env _ (.inr refused)))
  · exact missed

end Dominated

theorem copy_states {totalShards : Nat} (valid : fileInfoIsValidForMetadata candidate = true)
    (copied : isCopyOf candidate reply = true) :
    statedParity totalShards reply = statedParity totalShards (.answered candidate) := by
  obtain ⟨answered, replyValid, agrees⟩ := copy_usable copied
  have size : candidate.size = reply.info.size := by
    have fields := matches_fields agrees
    grind
  have parity : candidate.erasure.parityBlocks = reply.info.erasure.parityBlocks := by
    have fields := matches_fields agrees
    grind
  have status : candidate.transitionStatus = reply.info.transitionStatus := by
    have fields := matches_fields agrees
    grind
  have half : (reply.info.isCanonicalDeleteMarker || decide (reply.info.size = 0)) =
      (candidate.isCanonicalDeleteMarker || decide (candidate.size = 0)) := by
    by_cases empty : reply.info.size = 0
    · simp [size, empty]
    · have notMarker : reply.info.isCanonicalDeleteMarker = false :=
        Bool.eq_false_iff.2 fun isMarker => empty (marker_size isMarker)
      have candidateNotMarker : candidate.isCanonicalDeleteMarker = false :=
        Bool.eq_false_iff.2 fun isMarker => empty (size ▸ marker_size isMarker)
      rw [notMarker, candidateNotMarker, size]
  unfold statedParity Reply.answered
  rw [answered, replyValid, valid, half, ← parity, ← status]

theorem copies_add_others_le (candidate : FileInfo) (replies : List Reply) :
    replies.countP (isCopyOf candidate) + replies.countP (isOtherThan candidate) ≤
      replies.length := by
  have split := length_eq_countP_add_countP (isCopyOf candidate) (l := replies)
  have others : replies.countP (isOtherThan candidate) ≤
      replies.countP fun reply => ¬ isCopyOf candidate reply = true := by
    apply countP_mono_left
    intro reply _ other
    unfold isOtherThan at other
    simp only [Bool.and_eq_true, Bool.not_eq_true'] at other
    simp [other.1]
  omega

theorem copies_le_nil (candidate : FileInfo) (replies : List Reply) :
    replies.countP (isCopyOf candidate) ≤ nilCount (errsOf replies) := by
  unfold nilCount errsOf
  rw [countP_map]
  apply countP_mono_left
  intro reply _ copied
  simp [(copy_usable copied).1]

theorem parity_votes (replies : List Reply) (parity : Int) :
    votes id (listObjectParities replies) parity =
      replies.countP fun reply => statedParity replies.length reply = parity := by
  unfold votes listObjectParities
  rw [countP_map]
  rfl

theorem other_parity_votes (valid : fileInfoIsValidForMetadata candidate = true) {parity : Int}
    (defined : parity ≠ -1) (apart : parity ≠ statedParity replies.length (.answered candidate)) :
    votes id (listObjectParities replies) parity ≤ replies.countP (isOtherThan candidate) := by
  rw [parity_votes]
  apply countP_mono_left
  intro reply _ stated
  simp only [decide_eq_true_eq] at stated
  have notCopy : isCopyOf candidate reply = false := by
    apply Bool.eq_false_iff.2
    intro copied
    exact apart (stated.symm.trans (copy_states valid copied))
  have present : reply.info ≠ .default := by
    intro blank
    apply defined
    rw [← stated]
    apply stated_parity_eq_neg_one
    unfold Reply.usable
    rw [blank, default_invalid, Bool.and_false]
  simp [isOtherThan, notCopy, present]

/-- The parity of the copies is elected on every walk, once they are enough for it and
more than everything else. -/
theorem copies_elect (valid : fileInfoIsValidForMetadata candidate = true)
    (walk : Walk) {defaultParityCount : Int}
    (defined : 0 ≤ statedParity replies.length (.answered candidate))
    (outvoted : replies.countP (isOtherThan candidate) < replies.countP (isCopyOf candidate))
    (enough : parityQuorum replies.length defaultParityCount
      (statedParity replies.length (.answered candidate)) ≤
        replies.countP (isCopyOf candidate)) :
    commonParity walk (listObjectParities replies) defaultParityCount =
      statedParity replies.length (.answered candidate) := by
  have copies : replies.countP (isCopyOf candidate) ≤ votes id (listObjectParities replies)
      (statedParity replies.length (.answered candidate)) := by
    rw [parity_votes]
    apply countP_mono_left
    intro reply _ copied
    simp [copy_states valid copied]
  have supported : Supported (listObjectParities replies).length defaultParityCount
      (listObjectParities replies) (statedParity replies.length (.answered candidate)) := by
    rw [length_list_object_parities]
    exact ⟨by omega, by omega, by omega⟩
  have behind : ∀ other, other ≠ -1 → other ≠ statedParity replies.length (.answered candidate) →
      votes id (listObjectParities replies) other < votes id (listObjectParities replies)
        (statedParity replies.length (.answered candidate)) := by
    intro other otherDefined apart
    exact lt_of_le_of_lt (other_parity_votes valid otherDefined apart)
      (lt_of_lt_of_le outvoted copies)
  apply common_parity_of_unique
  · refine ⟨supported, ?_⟩
    intro other otherSupported
    by_cases same : other = statedParity replies.length (.answered candidate)
    · rw [same]
    · exact le_of_lt (behind other otherSupported.1 same)
  · intro other elected
    by_contra apart
    have above := elected.2 _ supported
    have below := behind other elected.1.1 apart
    omega

end Copies

/-- The quorums of the replies, and the selection with them. -/
def resolveFileinfo {δ : Type} (env : SetRuntime) (walks : Walks) (disks : List (Option δ))
    (replies : List Reply) (versionId : String) (defaultParityCount : Nat) :
    Except DiskError (List (Option δ) × FileInfo × Nat) :=
  match objectQuorumFromMeta walks replies defaultParityCount with
  | .error err => .error err
  | .ok quorums =>
    if quorums.1 < 0 then .error .erasureReadQuorum
    else if quorums.2 < 0 then .error .erasureWriteQuorum
    else
      selectValidFileinfo env walks disks replies versionId quorums.1.toNat quorums.2.toNat

/-- Valid metadata of an object whose shards are the drives of the set. -/
structure LaidOut (drives : Nat) (info : FileInfo) : Prop where
  valid : fileInfoIsValidForMetadata info = true
  total : info.erasure.dataBlocks.toNat + info.erasure.parityBlocks.toNat = drives

section Layout

variable {drives : Nat} {info : FileInfo}

theorem LaidOut.not_marker (laidOut : LaidOut drives info) (filled : 1 ≤ drives) :
    info.isCanonicalDeleteMarker = false := by
  apply Bool.eq_false_iff.2
  intro isMarker
  obtain ⟨_, noData, noParity⟩ := marker_shape isMarker
  have total := laidOut.total
  rw [noData, noParity] at total
  simp only [UInt64.toNat_zero] at total
  omega

theorem LaidOut.parity_le (laidOut : LaidOut drives info) (filled : 1 ≤ drives) :
    info.erasure.parityBlocks.toNat ≤ info.erasure.dataBlocks.toNat := by
  have valid := laidOut.valid
  unfold fileInfoIsValidForMetadata FileInfo.hasValidMetadataShape at valid
  rw [laidOut.not_marker filled, Bool.or_false] at valid
  exact (geometry_blocks valid).2

/-- The parity a laid out reply states: that of its layout, half the set for an empty
object, at least that of a majority for a transitioned one. -/
theorem LaidOut.stated (laidOut : LaidOut drives info) (filled : 1 ≤ drives) :
    statedParity drives (.answered info) =
      if info.size = 0 then ((drives / 2 : Nat) : Int)
      else if info.transitionStatus = transitionComplete then
        max ((drives : Int) - (drives / 2 + 1)) info.erasure.parityBlocks.toNat
      else info.erasure.parityBlocks.toNat := by
  have within : info.erasure.parityBlocks.toNat ≤ drives := by
    have total := laidOut.total
    omega
  unfold statedParity Reply.answered
  rw [laidOut.valid, laidOut.not_marker filled, if_pos within]
  simp only [Option.isSome_none, Bool.false_eq_true, if_false, Bool.not_true, Bool.false_or,
    decide_eq_true_eq]
  split
  · rfl
  · rw [if_neg (by omega)]

end Layout

section Copies

variable {δ : Type} {env : SetRuntime} {replies : List Reply} {candidate : FileInfo}
  {versionId : String} {readQuorum writeQuorum quorum : Nat}

/-- The result is valid metadata of one of the replies with the identity of the
candidate, up to the properties of its copies. -/
def Resolves (env : SetRuntime) (replies : List Reply) (candidate : FileInfo)
    (result : Except DiskError (List (Option δ) × FileInfo × Nat)) : Prop :=
  ∃ online info quorum, result = .ok (online, info, quorum) ∧
    fileInfoQuorumHash env info = fileInfoQuorumHash env candidate ∧
    ∃ reply ∈ replies, fileInfoIsValidForMetadata reply.info = true ∧ CopyOf reply.info info

/-- The copied reply is resolved if the drives can agree on it, and nothing otherwise. -/
def Settles (env : SetRuntime) (replies : List Reply) (candidate : FileInfo)
    (result : Except DiskError (List (Option δ) × FileInfo × Nat)) : Prop :=
  (Datable candidate ∧ Resolves env replies candidate result) ∨
    (¬ Datable candidate ∧ result = .error .erasureReadQuorum)

theorem Settles.datable {result : Except DiskError (List (Option δ) × FileInfo × Nat)}
    {picked : List (Option δ) × FileInfo × Nat} (settles : Settles env replies candidate result)
    (resolved : result = .ok picked) : Datable candidate := by
  rcases settles with ⟨datable, _⟩ | ⟨_, missed⟩
  · exact datable
  · rw [missed] at resolved
    cases resolved

theorem Settles.resolves {result : Except DiskError (List (Option δ) × FileInfo × Nat)}
    (settles : Settles env replies candidate result) (datable : Datable candidate) :
    Resolves env replies candidate result := by
  rcases settles with ⟨_, resolves⟩ | ⟨undatable, _⟩
  · exact resolves
  · exact absurd datable undatable

theorem select_copies (walks : Walks) (disks : List (Option δ))
    (calm : isDegraded env versionId replies readQuorum writeQuorum ≠ true)
    (isQuorum : latestFileinfoSelectionQuorum env versionId replies readQuorum writeQuorum = quorum)
    (dominated : Dominated candidate replies quorum) :
    Settles env replies candidate
      (selectValidFileinfo env walks disks replies versionId readQuorum writeQuorum) := by
  rw [select_by_votes calm, isQuorum]
  dsimp only
  by_cases datable : Datable candidate
  · obtain ⟨info, member, copy, admitted, sameHash, found, copied⟩ :=
      dominated.found env walks datable
    obtain ⟨reply, inReplies, isInfo⟩ := mem_map.1 member
    rw [found]
    refine .inl ⟨datable, _, copy, quorum, rfl, (quorum_hash_copy copied).trans sameHash, reply,
      inReplies, ?_, isInfo ▸ copied⟩
    unfold Agreed.admits at admitted
    simp only [Bool.and_eq_true] at admitted
    rw [isInfo]
    exact admitted.1
  · rw [dominated.missed env walks datable]
    exact .inr ⟨datable, rfl⟩

theorem copies_le_usable : replies.countP (isCopyOf candidate) ≤ replies.countP Reply.usable := by
  apply countP_mono_left
  intro reply _ copied
  unfold isCopyOf at copied
  simp only [Bool.and_eq_true] at copied
  exact copied.1

theorem copies_le_identity (env : SetRuntime) :
    replies.countP (isCopyOf candidate) ≤
      votes id ((usableInfos replies).map (fileInfoQuorumHash env))
        (fileInfoQuorumHash env candidate) := by
  unfold votes usableInfos
  rw [countP_map, countP_map, countP_filter]
  apply countP_mono_left
  intro reply _ copied
  have usable : reply.usable = true := by
    unfold isCopyOf at copied
    simp only [Bool.and_eq_true] at copied
    exact copied.1
  simp [usable, matches_quorum_hash env (copy_usable copied).2.2]

theorem latest_selection_quorum (ordered : readQuorum ≤ writeQuorum)
    (enough : writeQuorum ≤ replies.countP (isCopyOf candidate)) :
    latestFileinfoSelectionQuorum env "" replies readQuorum writeQuorum = writeQuorum := by
  unfold latestFileinfoSelectionQuorum
  by_cases level : writeQuorum ≤ readQuorum
  · rw [if_pos (by simp [level])]
    omega
  have usable := le_trans enough copies_le_usable
  rw [if_neg (by simp [level])]
  unfold usableFileinfoCount
  rw [if_neg (not_lt.2 usable)]
  split
  · rfl
  · apply if_pos
    have counted := counts_tally hashes_agree ((usableInfos replies).map (fileInfoQuorumHash env))
    have voted := le_trans enough (copies_le_identity env)
    obtain ⟨hash, member, sameHash⟩ := exists_of_votes_pos (lt_of_lt_of_le (by omega) voted)
    obtain ⟨entry, inCounts, entryKey⟩ := counted.reached hash member
    rw [any_eq_true]
    refine ⟨entry, inCounts, ?_⟩
    rw [(counted.held entry inCounts).2, entryKey, sameHash]
    exact decide_eq_true voted

theorem latest_not_degraded (ordered : readQuorum ≤ writeQuorum)
    (enough : writeQuorum ≤ replies.countP (isCopyOf candidate)) :
    isDegraded env "" replies readQuorum writeQuorum ≠ true := by
  unfold isDegraded
  rw [latest_selection_quorum ordered enough]
  simp only [Bool.and_eq_true, decide_eq_true_eq, ne_eq]
  omega

theorem version_not_degraded (explicit : versionId.isEmpty = false) :
    isDegraded env versionId replies readQuorum writeQuorum ≠ true := by
  unfold isDegraded
  simp [explicit]

theorem version_selection_quorum (explicit : versionId.isEmpty = false) :
    latestFileinfoSelectionQuorum env versionId replies readQuorum writeQuorum = readQuorum := by
  unfold latestFileinfoSelectionQuorum
  rw [explicit]
  rfl

end Copies

/-- The copies that end a read of the latest version: every drive without parity, the
write quorum of the layout of a non-empty object otherwise. -/
def LatestThreshold (drives defaultParityCount : Nat) (candidate : FileInfo) (quorum : Nat) :
    Prop :=
  (defaultParityCount = 0 ∧ quorum = drives) ∨
    (0 < defaultParityCount ∧ candidate.size ≠ 0 ∧
      quorum = if candidate.erasure.dataBlocks.toNat = candidate.erasure.parityBlocks.toNat then
        candidate.erasure.dataBlocks.toNat + 1 else candidate.erasure.dataBlocks.toNat)

theorem candidate_latest_threshold {acc : MetadataQuorumAccumulator} {candidate : FileInfo}
    {quorum : Nat} (isQuorum : acc.candidateLatestQuorum candidate = some quorum) :
    LatestThreshold acc.totalDisks acc.defaultParityCount candidate quorum := by
  unfold candidateLatestQuorum at isQuorum
  split at isQuorum
  · rename_i zero
    cases isQuorum
    exact .inl ⟨zero, rfl⟩
  rename_i positive
  split at isQuorum
  · cases isQuorum
  rename_i present
  cases isQuorum
  right
  simp only [Bool.or_eq_true, decide_eq_true_eq, not_or] at present
  exact ⟨Nat.pos_of_ne_zero positive, present.1.2, rfl⟩

structure Fits (drives quorum : Nat) (defaultParityCount parity : Int) : Prop where
  nonneg : 0 ≤ parity
  supported : parityQuorum drives defaultParityCount parity ≤ quorum
  readPositive : 1 ≤ (quorumsOf drives parity).1
  ordered : (quorumsOf drives parity).1 ≤ (quorumsOf drives parity).2
  reached : (quorumsOf drives parity).2 ≤ quorum
  outvotes : drives < (quorumsOf drives parity).2 + quorum
  majority : drives < 2 * quorum

theorem layout_fits {drives data parity quorum : Nat} {stated defaultParityCount : Int}
    (total : data + parity = drives) (filled : 1 ≤ drives) (ordered : parity ≤ data)
    (isQuorum : quorum = if data = parity then data + 1 else data)
    (isStated : stated = parity ∨ stated = max ((drives : Int) - (drives / 2 + 1)) parity) :
    Fits drives quorum defaultParityCount stated := by
  have readQuorum : (quorumsOf drives stated).1 = drives - stated := rfl
  have writeQuorum : (quorumsOf drives stated).2 =
      if drives - stated = stated then drives - stated + 1 else drives - stated := rfl
  have needed : parityQuorum drives defaultParityCount stated ≤ quorum := by
    unfold parityQuorum
    split <;> split at isQuorum <;> omega
  constructor
  · omega
  · exact needed
  · omega
  · rw [writeQuorum, readQuorum]
    split <;> omega
  · rw [writeQuorum]
    split <;> split at isQuorum <;> omega
  · rw [writeQuorum]
    split <;> split at isQuorum <;> omega
  · split at isQuorum <;> omega

section Latest

variable {δ : Type} {env : SetRuntime} {replies : List Reply} {candidate : FileInfo}
  {defaultParityCount quorum : Nat}

theorem exists_copy (reached : 1 ≤ replies.countP (isCopyOf candidate)) :
    ∃ reply ∈ replies, isCopyOf candidate reply = true := by
  obtain ⟨reply, member, copied⟩ := countP_pos_iff.1 reached
  exact ⟨reply, member, copied⟩

/-- Whatever else the drives answer, enough copies of a reply resolve to it, unless it is
dated at the Unix epoch and has no etag. -/
theorem resolve_latest (walks : Walks) (disks : List (Option δ))
    (laidOut : LaidOut replies.length candidate) (filled : 1 ≤ replies.length)
    (threshold : LatestThreshold replies.length defaultParityCount candidate quorum)
    (reached : quorum ≤ replies.countP (isCopyOf candidate)) :
    Settles env replies candidate
      (resolveFileinfo env walks disks replies "" defaultParityCount) := by
  have nils := copies_le_nil candidate replies
  have others := copies_add_others_le candidate replies
  have drives : (errsOf replies).length = replies.length := length_map _
  have positiveQuorum : 1 ≤ quorum := by
    have total := laidOut.total
    have ordered := laidOut.parity_le filled
    rcases threshold with ⟨_, rfl⟩ | ⟨_, _, isQuorum⟩
    · exact filled
    · split at isQuorum <;> omega
  obtain ⟨reply, member, copied⟩ := exists_copy (le_trans positiveQuorum reached)
  have answered := (copy_usable copied).1
  rcases threshold with ⟨rfl, rfl⟩ | ⟨positive, present, isQuorum⟩
  · have calm : Calm (errsOf replies) objectOpIgnoredErrs := by
      apply calm_of_majority
      omega
    have accepted := @object_quorum_of_zero walks replies reply member answered calm (by omega)
    unfold resolveFileinfo
    rw [accepted]
    apply select_copies walks disks (latest_not_degraded le_rfl reached)
      (latest_selection_quorum le_rfl reached)
    exact ⟨filled, reached, by omega⟩
  · have stated := laidOut.stated filled
    rw [if_neg present] at stated
    have fits : Fits replies.length quorum defaultParityCount
        (statedParity replies.length (.answered candidate)) := by
      apply layout_fits laidOut.total filled (laidOut.parity_le filled) isQuorum
      split at stated
      · exact .inr stated
      · exact .inl stated
    have majority := fits.majority
    have calm : Calm (errsOf replies) objectOpIgnoredErrs := by
      apply calm_of_majority
      omega
    have common := copies_elect laidOut.valid walks.parities fits.nonneg (by omega)
      (le_trans fits.supported (by exact_mod_cast reached))
    have enough : expectedReadQuorum replies.length defaultParityCount ≤
        nilCount (errsOf replies) := by
      rw [expectedReadQuorum, if_neg (by omega)]
      omega
    have accepted := object_quorum_of_parity member answered calm enough positive fits.nonneg common
    have readPositive := fits.readPositive
    have ordered := fits.ordered
    have within := fits.reached
    have outvotes := fits.outvotes
    unfold resolveFileinfo
    rw [accepted]
    dsimp only
    generalize quorumsOf replies.length (statedParity replies.length (.answered candidate)) =
      quorums at readPositive ordered within outvotes ⊢
    have copies : quorums.2.toNat ≤ replies.countP (isCopyOf candidate) := by omega
    rw [if_neg (by omega), if_neg (by omega)]
    apply select_copies walks disks (latest_not_degraded (by omega) copies)
      (latest_selection_quorum (by omega) copies)
    exact ⟨by omega, copies, by omega⟩

theorem latest_decision {answers : List Answer} {order : List Nat} {state : FanOut}
    (running : Running answers defaultParityCount "" order state)
    (laidOut : ∀ info, .ok info ∈ answers → LaidOut answers.length info) (filled : 1 ≤ answers.length)
    (fired : state.accumulator.earlyStopDecision.isSome = true) :
    ∃ candidate quorum, .ok candidate ∈ arrived answers order ∧
      LatestThreshold answers.length defaultParityCount candidate quorum ∧
      quorum ≤ (arrived answers order).countP Answer.isObject ∧
      ∀ info, .ok info ∈ arrived answers order → Answer.isObject (.ok info) = true →
        metadataEarlyStopCandidateMatches candidate info = true := by
  have unmarked : state.accumulator.deleteMarkerSeen = false := by
    apply Bool.eq_false_iff.2
    intro seen
    obtain ⟨info, member, isMarker⟩ := running.tracks.marked seen
    rw [(laidOut info (mem_of_arrived member)).not_marker filled] at isMarker
    cases isMarker
  have noMarkers : ¬ state.accumulator.defaultWriteQuorum ≤ state.accumulator.deleteMarkerVotes := by
    rw [running.tracks.markerVotes unmarked]
    unfold defaultWriteQuorum
    rw [running.drives]
    simp only [Bool.or_eq_true, decide_eq_true_eq]
    split
    · omega
    · split <;> omega
  unfold earlyStopDecision at fired
  rw [running.allowed, if_neg (by simp), if_neg noMarkers] at fired
  split at fired
  · cases fired
  rename_i undisturbed
  split at fired
  · rename_i reached
    have agreeing : state.accumulator.conflictingMetadata = false := by
      unfold disturbed at undisturbed
      simp only [Bool.or_eq_true, not_or] at undisturbed
      exact Bool.eq_false_iff.2 undisturbed.1.1.1.1
    obtain ⟨quorum, isQuorum, enough⟩ := (Option.any_eq_true _ _).1 reached
    obtain ⟨candidate, isCandidate, isThreshold⟩ := Option.bind_eq_some_iff.1 isQuorum
    have threshold := candidate_latest_threshold isThreshold
    rw [running.drives, running.parity] at threshold
    refine ⟨candidate, quorum, (running.tracks.candidateSeen candidate isCandidate).1, threshold,
      ?_, ?_⟩
    · rw [← running.tracks.candidateVotes agreeing]
      exact decide_eq_true_iff.1 enough
    · intro info member isObject
      obtain ⟨other, isOther, agrees⟩ := running.tracks.agreed agreeing info member isObject
      rw [isCandidate] at isOther
      cases isOther
      exact agrees
  · cases fired

end Latest

section Slots

variable {answers : List Answer} {order : List Nat} {slots : List Reply} {candidate : FileInfo}

theorem unanswered_not_copy (candidate : FileInfo) : isCopyOf candidate .unanswered = false := by
  rfl

theorem objects_le_copies (filled : Filled answers order slots)
    (agree : ∀ info, .ok info ∈ arrived answers order → Answer.isObject (.ok info) = true →
      metadataEarlyStopCandidateMatches candidate info = true) :
    (arrived answers order).countP Answer.isObject ≤ slots.countP (isCopyOf candidate) := by
  rw [filled.counts _ (unanswered_not_copy candidate)]
  apply countP_mono_left
  intro answer member isObject
  cases answer with
  | error err => cases isObject
  | ok info =>
    have agrees := agree info member isObject
    unfold Answer.isObject at isObject
    simp only [Bool.and_eq_true] at isObject
    simp [Answer.reply, Reply.answered, isCopyOf, Reply.usable, isObject.1, agrees]

theorem slots_length (filled : Filled answers order slots) : slots.length = answers.length := by
  rw [filled.pending.length_eq, length_map]

theorem copies_le_full (filled : Filled answers order slots) :
    slots.countP (isCopyOf candidate) ≤
      (answers.map Answer.reply).countP (isCopyOf candidate) := by
  apply Quorum.count_le_of_forall₂ filled.pending
  intro slot reply related copied
  rcases related with same | blank
  · exact same ▸ copied
  · rw [blank, unanswered_not_copy] at copied
    cases copied

theorem datable_of_matches {info : FileInfo}
    (agrees : metadataEarlyStopCandidateMatches candidate info = true)
    (datable : Datable candidate) : Datable info := by
  have time : candidate.modTime = info.modTime := by
    have fields := matches_fields agrees
    grind
  have metadata : candidate.metadata = info.metadata := by
    have fields := matches_fields agrees
    grind
  unfold Datable FileInfo.getEtag at datable ⊢
  rw [← time, ← metadata]
  exact datable

end Slots

def fanOutAfter (answers : List Answer) (defaultParityCount : Nat) (versionId : String)
    (trackShards : Bool) (order : List Nat) : FanOut :=
  (FanOut.start answers.length defaultParityCount versionId trackShards).run answers order

/-- A read of the latest version that stops early resolves to what the replies of all drives
resolve to, exactly when the replies it saw are not dated at the Unix epoch or have an etag. The
replies arrive in any order, and the maps of the two resolutions are walked independently. -/
theorem latest_early_stop_agrees_iff {δ : Type} (env : SetRuntime) (walks walks' : Walks)
    (disks disks' : List (Option δ)) (answers : List Answer) (defaultParityCount : Nat)
    (trackShards : Bool) (order : List Nat)
    (laidOut : ∀ info, .ok info ∈ answers → LaidOut answers.length info)
    (inRange : ∀ index ∈ order, index < answers.length) (distinct : order.Nodup)
    (begun : order ≠ []) (fired : (fanOutAfter answers defaultParityCount "" trackShards
      order).accumulator.earlyStopDecision.isSome = true) :
    (∃ online info quorum online' info' quorum',
      resolveFileinfo env walks disks
          (fanOutAfter answers defaultParityCount "" trackShards order).slots ""
          defaultParityCount = .ok (online, info, quorum) ∧
        resolveFileinfo env walks' disks' (answers.map Answer.reply) "" defaultParityCount =
          .ok (online', info', quorum') ∧
        fileInfoQuorumHash env info = fileInfoQuorumHash env info') ↔
      ∀ info, .ok info ∈ arrived answers order → Datable info := by
  have running := running_start answers defaultParityCount "" trackShards inRange distinct
  have nonempty : 1 ≤ answers.length := by
    obtain ⟨index, member⟩ := exists_mem_of_ne_nil order begun
    have bound := inRange index member
    omega
  obtain ⟨candidate, quorum, member, threshold, reached, agree⟩ :=
    latest_decision running laidOut nonempty fired
  have candidateLaidOut := laidOut candidate (mem_of_arrived member)
  have copies := le_trans reached (objects_le_copies running.filled agree)
  have length := slots_length running.filled
  have partialSettles : Settles env
      (fanOutAfter answers defaultParityCount "" trackShards order).slots candidate
      (resolveFileinfo env walks disks
        (fanOutAfter answers defaultParityCount "" trackShards order).slots ""
        defaultParityCount) := by
    apply resolve_latest walks disks
    · rw [fanOutAfter, length]
      exact candidateLaidOut
    · rw [fanOutAfter, length]
      exact nonempty
    · rw [fanOutAfter, length]
      exact threshold
    · exact copies
  have fullSettles : Settles env (answers.map Answer.reply) candidate
      (resolveFileinfo env walks' disks' (answers.map Answer.reply) "" defaultParityCount) := by
    apply resolve_latest walks' disks'
    · rw [length_map]
      exact candidateLaidOut
    · rw [length_map]
      exact nonempty
    · rw [length_map]
      exact threshold
    · exact le_trans copies (copies_le_full running.filled)
  constructor
  · intro ⟨_, _, _, _, _, _, resolved, _, _⟩ info arrivedInfo
    have isObject : Answer.isObject (.ok info) = true := by
      have infoLaidOut := laidOut info (mem_of_arrived arrivedInfo)
      simp [Answer.isObject, infoLaidOut.valid, infoLaidOut.not_marker nonempty]
    exact datable_of_matches (agree info arrivedInfo isObject) (partialSettles.datable resolved)
  · intro datable
    have candidateDatable := datable candidate member
    obtain ⟨online, info, quorum, resolved, sameHash, _⟩ :=
      partialSettles.resolves candidateDatable
    obtain ⟨online', info', quorum', resolved', sameHash', _⟩ :=
      fullSettles.resolves candidateDatable
    exact ⟨online, info, quorum, online', info', quorum', resolved, resolved',
      sameHash.trans sameHash'.symm⟩

/-- An object of one byte on four drives, written at the instant. -/
def datedInfo (time : OffsetDateTime) : FileInfo :=
  { sampleInfo 2 2 with modTime := some time }

def earlySecond : OffsetDateTime := ⟨1000000000, by decide⟩

theorem three_of_four_end_the_read :
    (∀ info, .ok info ∈ List.replicate 4 (Except.ok (datedInfo earlySecond) : Answer) →
        LaidOut 4 info) ∧
      ∃ online info quorum online' info' quorum',
        resolveFileinfo .sample (.all .sorted) ([] : List (Option Unit))
            (fanOutAfter (List.replicate 4 (.ok (datedInfo earlySecond))) 2 "" true
              [2, 0, 1]).slots "" 2 = .ok (online, info, quorum) ∧
          resolveFileinfo .sample (.all .sorted) ([] : List (Option Unit))
            ((List.replicate 4 (.ok (datedInfo earlySecond))).map Answer.reply) "" 2 =
              .ok (online', info', quorum') ∧
          fileInfoQuorumHash .sample info = fileInfoQuorumHash .sample info' := by
  have laidOut : ∀ info, .ok info ∈ List.replicate 4 (Except.ok (datedInfo earlySecond) : Answer) →
      LaidOut 4 info := by
    intro info member
    cases eq_of_mem_replicate member
    exact ⟨by decide, rfl⟩
  refine ⟨laidOut, ?_⟩
  apply (latest_early_stop_agrees_iff .sample _ _ [] [] _ 2 true [2, 0, 1] laidOut (by decide)
    (by decide) (by decide) (by decide)).2
  intro info member
  cases eq_of_mem_replicate (mem_of_arrived member)
  left
  decide

/-- Copies dated at the Unix epoch end the read and are then not resolved. -/
theorem epoch_copies_not_resolved :
    ¬ ∀ (env : SetRuntime) (walks walks' : Walks) (disks disks' : List (Option Unit))
        (answers : List Answer) (defaultParityCount : Nat) (trackShards : Bool)
        (order : List Nat),
      (∀ info, .ok info ∈ answers → LaidOut answers.length info) →
      (∀ index ∈ order, index < answers.length) → order.Nodup → order ≠ [] →
      (fanOutAfter answers defaultParityCount "" trackShards
        order).accumulator.earlyStopDecision.isSome = true →
      ∃ online info quorum online' info' quorum',
        resolveFileinfo env walks disks
            (fanOutAfter answers defaultParityCount "" trackShards order).slots ""
            defaultParityCount = .ok (online, info, quorum) ∧
          resolveFileinfo env walks' disks' (answers.map Answer.reply) "" defaultParityCount =
            .ok (online', info', quorum') ∧
          fileInfoQuorumHash env info = fileInfoQuorumHash env info' := by
  intro claim
  have laidOut : ∀ info,
      .ok info ∈ List.replicate 4 (Except.ok (datedInfo .unixEpoch) : Answer) →
        LaidOut 4 info := by
    intro info member
    cases eq_of_mem_replicate member
    exact ⟨by decide, rfl⟩
  obtain ⟨_, _, _, _, _, _, resolved, _, _⟩ := claim .sample (.all .sorted) (.all .sorted) [] []
    _ 2 true [2, 0, 1] laidOut (by decide) (by decide) (by decide) (by decide)
  cases resolved

/-- The copies a layout needs to be read: its data shards, a majority at most for a
transitioned object, half the set for an empty one. -/
def neededCopies (drives : Nat) (info : FileInfo) : Int :=
  drives - statedParity drives (.answered info)

theorem LaidOut.stated_le_half {drives : Nat} {info : FileInfo} (laidOut : LaidOut drives info)
    (filled : 1 ≤ drives) :
    0 ≤ statedParity drives (.answered info) ∧ 2 * statedParity drives (.answered info) ≤ drives := by
  have total := laidOut.total
  have ordered := laidOut.parity_le filled
  rw [laidOut.stated filled]
  split
  · omega
  split <;> omega

theorem counted_errs_length (ignoredErrs : List DiskError) (replies : List Reply) :
    (countedErrs ignoredErrs (errsOf replies)).length =
      replies.countP fun reply => reply.err.any fun err => !isIgnoredErr ignoredErrs err := by
  unfold countedErrs errsOf
  rw [filterMap_map, ← countP_eq_length_filter, countP_filterMap]
  apply countP_congr
  intro reply _
  cases err : reply.err with
  | none => simp [err]
  | some err' => simp [err]

section Copies

variable {δ : Type} {env : SetRuntime} {replies : List Reply} {candidate : FileInfo}
  {versionId : String} {defaultParityCount : Nat}

theorem calm_of_ignored (ignored : (replies.countP fun reply =>
      reply.err.any fun err => !isIgnoredErr objectOpIgnoredErrs err) = 0) :
    Calm (errsOf replies) objectOpIgnoredErrs := by
  intro error
  have counted : errVotes (errsOf replies) objectOpIgnoredErrs error ≤
      (countedErrs objectOpIgnoredErrs (errsOf replies)).length := countP_le_length
  rw [counted_errs_length, ignored] at counted
  omega

theorem copy_of_valid (alone : replies.countP (isOtherThan candidate) = 0) {reply : Reply}
    (member : reply ∈ replies) (valid : fileInfoIsValidForMetadata reply.info = true) :
    isCopyOf candidate reply = true := by
  have notOther := countP_eq_zero.1 alone reply member
  have present : reply.info ≠ .default := by
    intro blank
    rw [blank, default_invalid] at valid
    cases valid
  cases copied : isCopyOf candidate reply with
  | true => rfl
  | false => simp [isOtherThan, copied, present] at notOther

theorem identity_votes_le (alone : replies.countP (isOtherThan candidate) = 0) (agreed : Agreed)
    (hash : Bytes) :
    identityVotes env (replies.map Reply.info) agreed hash ≤
      replies.countP (isCopyOf candidate) := by
  rw [identity_votes_replies]
  apply countP_mono_left
  intro reply member said
  simp only [Bool.and_eq_true, Agreed.admits] at said
  exact copy_of_valid alone member said.1.1

theorem selected_quorum_le {walks : Walks} {disks : List (Option δ)} {readQuorum writeQuorum : Nat}
    {picked : List (Option δ) × FileInfo × Nat} (explicit : versionId.isEmpty = false)
    (alone : replies.countP (isOtherThan candidate) = 0)
    (selected : selectValidFileinfo env walks disks replies versionId readQuorum writeQuorum =
      .ok picked) : 1 ≤ readQuorum ∧ readQuorum ≤ replies.countP (isCopyOf candidate) := by
  rw [select_by_votes (version_not_degraded explicit), version_selection_quorum explicit] at selected
  dsimp only at selected
  split at selected
  · cases selected
  · rename_i info found
    obtain ⟨positive, wins, _⟩ := find_ok found
    exact ⟨positive, le_trans wins.2 (identity_votes_le alone _ _)⟩

theorem resolved_version {result : Except DiskError (List (Option δ) × FileInfo × Nat)}
    (alone : replies.countP (isOtherThan candidate) = 0)
    (resolves : Resolves env replies candidate result) :
    ∃ online info quorum, result = .ok (online, info, quorum) ∧
      fileInfoQuorumHash env info = fileInfoQuorumHash env candidate ∧
      info.versionId = candidate.versionId := by
  obtain ⟨online, info, quorum, resolved, sameHash, reply, member, valid, copied⟩ := resolves
  refine ⟨online, info, quorum, resolved, sameHash, ?_⟩
  have fields := matches_fields (copy_usable (copy_of_valid alone member valid)).2.2
  rw [fields.1]
  rcases copied with rfl | ⟨props, rfl⟩
  all_goals rfl

theorem copies_quorums (walks : Walks) (laidOut : LaidOut replies.length candidate)
    (filled : 1 ≤ replies.length) (alone : replies.countP (isOtherThan candidate) = 0)
    (ignored : (replies.countP fun reply =>
      reply.err.any fun err => !isIgnoredErr objectOpIgnoredErrs err) = 0)
    (positive : 0 < defaultParityCount)
    (half : replies.length / 2 ≤ replies.countP (isCopyOf candidate))
    (begun : 1 ≤ replies.countP (isCopyOf candidate))
    (needed : neededCopies replies.length candidate ≤ replies.countP (isCopyOf candidate)) :
    objectQuorumFromMeta walks replies defaultParityCount =
      .ok (quorumsOf replies.length (statedParity replies.length (.answered candidate))) := by
  have nils := copies_le_nil candidate replies
  obtain ⟨nonneg, _⟩ := laidOut.stated_le_half filled
  obtain ⟨reply, member, copied⟩ := exists_copy begun
  apply object_quorum_of_parity member (copy_usable copied).1 (calm_of_ignored ignored) _ positive
    nonneg
  · apply copies_elect laidOut.valid walks.parities nonneg (by omega)
    unfold neededCopies at needed
    unfold parityQuorum
    split <;> omega
  · rw [expectedReadQuorum, if_neg (by omega)]
    omega

/-- Enough copies for their layout are resolved, unless they are dated at the Unix epoch
and have no etag. -/
theorem resolve_version (walks : Walks) (disks : List (Option δ))
    (explicit : versionId.isEmpty = false) (laidOut : LaidOut replies.length candidate)
    (filled : 1 ≤ replies.length) (alone : replies.countP (isOtherThan candidate) = 0)
    (ignored : (replies.countP fun reply =>
      reply.err.any fun err => !isIgnoredErr objectOpIgnoredErrs err) = 0)
    (half : replies.length / 2 ≤ replies.countP (isCopyOf candidate))
    (begun : 1 ≤ replies.countP (isCopyOf candidate))
    (all : defaultParityCount = 0 → replies.length ≤ replies.countP (isCopyOf candidate))
    (needed : neededCopies replies.length candidate ≤ replies.countP (isCopyOf candidate)) :
    Settles env replies candidate
      (resolveFileinfo env walks disks replies versionId defaultParityCount) := by
  unfold resolveFileinfo
  by_cases zero : defaultParityCount = 0
  · have copies := all zero
    have nils := copies_le_nil candidate replies
    obtain ⟨reply, member, copied⟩ := exists_copy begun
    rw [zero, @object_quorum_of_zero walks replies reply member (copy_usable copied).1
      (calm_of_ignored ignored) (by omega)]
    apply select_copies walks disks (version_not_degraded explicit)
      (version_selection_quorum explicit)
    exact ⟨filled, copies, by omega⟩
  · obtain ⟨nonneg, halved⟩ := laidOut.stated_le_half filled
    rw [copies_quorums walks laidOut filled alone ignored (Nat.pos_of_ne_zero zero) half begun needed]
    unfold neededCopies at needed
    unfold quorumsOf
    dsimp only
    rw [if_neg (by omega), if_neg (by split <;> omega)]
    apply select_copies walks disks (version_not_degraded explicit)
      (version_selection_quorum explicit)
    exact ⟨by omega, by omega, by omega⟩

theorem resolved_needed {walks : Walks} {disks : List (Option δ)}
    {picked : List (Option δ) × FileInfo × Nat} (explicit : versionId.isEmpty = false)
    (laidOut : LaidOut replies.length candidate) (filled : 1 ≤ replies.length)
    (alone : replies.countP (isOtherThan candidate) = 0)
    (resolved : resolveFileinfo env walks disks replies versionId defaultParityCount =
      .ok picked) :
    neededCopies replies.length candidate ≤ replies.countP (isCopyOf candidate) := by
  unfold resolveFileinfo at resolved
  split at resolved
  · cases resolved
  rename_i quorums accepted
  split at resolved
  · cases resolved
  split at resolved
  · cases resolved
  rename_i readNonneg _
  obtain ⟨_, enough⟩ := selected_quorum_le explicit alone resolved
  obtain ⟨nonneg, _⟩ := laidOut.stated_le_half filled
  unfold neededCopies
  rcases object_quorum_ok accepted with ⟨_, rfl⟩ | ⟨_, _, _, parity, elected, rfl⟩
  · omega
  · have isStated : parity = statedParity replies.length (.answered candidate) := by
      by_contra apart
      have short := other_parity_votes laidOut.valid elected.1.1 apart
      have voted := elected.1.2.1
      omega
    unfold quorumsOf at enough readNonneg
    dsimp only at enough readNonneg
    omega

end Copies

section Decision

variable {answers : List Answer} {order : List Nat} {slots : List Reply} {candidate : FileInfo}
  {defaultParityCount : Nat} {versionId : String} {state : FanOut}

/-- The arrivals are copies of the candidate, or errors that only say a drive is away. This is
what a decision to stop early says about them. -/
structure Unanimous (candidate : FileInfo) (seen : List Answer) : Prop where
  copies : ∀ info, .ok info ∈ seen → Answer.isObject (.ok info) = true ∧
    metadataEarlyStopCandidateMatches candidate info = true
  away : ∀ err, .error err ∈ seen → isMetadataFanoutIgnoredError err = true

theorem version_decision (running : Running answers defaultParityCount versionId order state)
    (filled : 1 ≤ answers.length) (fired : state.accumulator.versionEarlyStopDecision.isSome = true) :
    versionId.isEmpty = false ∧ ∃ candidate, .ok candidate ∈ arrived answers order ∧
      Unanimous candidate (arrived answers order) ∧
      1 ≤ (arrived answers order).countP Answer.isObject ∧
      answers.length / 2 ≤ (arrived answers order).countP Answer.isObject ∧
      (defaultParityCount = 0 → answers.length ≤ (arrived answers order).countP Answer.isObject) := by
  unfold versionEarlyStopDecision at fired
  rw [running.allowed, running.version, if_neg (by simp)] at fired
  split at fired
  · cases fired
  rename_i explicit
  split at fired
  · cases fired
  rename_i undisturbed
  split at fired
  · unfold disturbed at undisturbed
    simp only [Bool.or_eq_true, decide_eq_true_eq, not_or, not_lt, Nat.le_zero,
      Bool.not_eq_true] at undisturbed
    obtain ⟨⟨⟨⟨agreeing, unmarked⟩, noneMissing⟩, noVersionMissing⟩, noneHard⟩ := undisturbed
    have orderly := running.tracks.orderly noneMissing noVersionMissing noneHard
    have requested : state.accumulator.matchingVersionVotes ≤
        (arrived answers order).countP Answer.isObject := by
      rw [running.tracks.versionVotes]
      apply countP_mono_left
      intro answer member isRequested
      cases answer with
      | error err => cases isRequested
      | ok info =>
        unfold Answer.isRequested at isRequested
        simp only [Bool.and_eq_true] at isRequested
        simp [Answer.isObject, isRequested.1,
          running.tracks.unmarked unmarked info member isRequested.1]
    have threshold : 1 ≤ state.accumulator.readQuorumForVersion ∧
        answers.length / 2 ≤ state.accumulator.readQuorumForVersion ∧
        (defaultParityCount = 0 → answers.length ≤ state.accumulator.readQuorumForVersion) := by
      unfold readQuorumForVersion
        missingResponseQuorum
      rw [running.drives, running.parity]
      simp only [Bool.or_eq_true, decide_eq_true_eq]
      split <;> omega
    have isObject : ∀ info, .ok info ∈ arrived answers order →
        Answer.isObject (.ok info) = true := by
      intro info member
      have valid : fileInfoIsValidForMetadata info = true := orderly _ member
      simp [Answer.isObject, valid, running.tracks.unmarked unmarked info member valid]
    have begun : 0 < (arrived answers order).countP Answer.isObject := by omega
    obtain ⟨answer, member, first⟩ := countP_pos_iff.1 begun
    cases answer with
    | error err => cases first
    | ok info =>
      obtain ⟨candidate, isCandidate, _⟩ := running.tracks.agreed agreeing info member first
      refine ⟨by simpa using explicit, candidate,
        (running.tracks.candidateSeen candidate isCandidate).1, ?_, by omega, by omega, by omega⟩
      constructor
      · intro other otherMember
        obtain ⟨found, isFound, agrees⟩ :=
          running.tracks.agreed agreeing other otherMember (isObject other otherMember)
        rw [isCandidate] at isFound
        cases isFound
        exact ⟨isObject other otherMember, agrees⟩
      · intro err errMember
        exact orderly _ errMember
  · cases fired

section

variable (filled : Filled answers order slots)
  (unanimous : Unanimous candidate (arrived answers order))

include filled unanimous

theorem unanimous_alone : slots.countP (isOtherThan candidate) = 0 := by
  have blank : isOtherThan candidate .unanswered = false := by
    simp [isOtherThan, Reply.unanswered]
  rw [filled.counts _ blank, countP_eq_zero]
  intro answer member
  cases answer with
  | error err => simp [isOtherThan, Answer.reply, Reply.failed]
  | ok info =>
    obtain ⟨isObject, agrees⟩ := unanimous.copies info member
    unfold Answer.isObject at isObject
    simp only [Bool.and_eq_true] at isObject
    simp [isOtherThan, isCopyOf, Answer.reply, Reply.answered, Reply.usable, isObject.1, agrees]

theorem unanimous_ignored :
    (slots.countP fun reply =>
      reply.err.any fun err => !isIgnoredErr objectOpIgnoredErrs err) = 0 := by
  rw [filled.counts _ rfl, countP_eq_zero]
  intro answer member
  cases answer with
  | ok info => simp [Answer.reply, Reply.answered]
  | error err =>
    have away := unanimous.away err member
    unfold isMetadataFanoutIgnoredError at away
    simp [Answer.reply, Reply.failed, away]

theorem unanimous_copies :
    slots.countP (isCopyOf candidate) = (arrived answers order).countP Answer.isObject := by
  apply le_antisymm
  · rw [filled.counts _ (unanswered_not_copy candidate)]
    apply countP_mono_left
    intro answer member copied
    cases answer with
    | ok info => exact (unanimous.copies info member).1
    | error err =>
      obtain ⟨failed, _⟩ := copy_usable copied
      cases failed
  · apply objects_le_copies filled
    intro info member _
    exact (unanimous.copies info member).2

end

theorem unanimous_is_copy (unanimous : Unanimous candidate (arrived answers order))
    {info : FileInfo} (member : .ok info ∈ arrived answers order) :
    isCopyOf candidate (.answered info) = true := by
  obtain ⟨isObject, agrees⟩ := unanimous.copies info member
  unfold Answer.isObject at isObject
  simp only [Bool.and_eq_true] at isObject
  simp [isCopyOf, Reply.answered, Reply.usable, isObject.1, agrees]

end Decision

/-- A read of an explicit version that stops early resolves to that version exactly when the
copies seen are as many as their layout needs, and are not dated at the Unix epoch or have an
etag. -/
theorem version_early_stop_selects_iff {δ : Type} (env : SetRuntime) (walks : Walks)
    (disks : List (Option δ)) (answers : List Answer) (defaultParityCount : Nat)
    (versionId : String) (trackShards : Bool) (order : List Nat)
    (laidOut : ∀ info, .ok info ∈ arrived answers order → LaidOut answers.length info)
    (inRange : ∀ index ∈ order, index < answers.length) (distinct : order.Nodup)
    (begun : order ≠ []) (fired : (fanOutAfter answers defaultParityCount versionId trackShards
      order).accumulator.versionEarlyStopDecision.isSome = true) :
    (∃ online info quorum,
      resolveFileinfo env walks disks
          (fanOutAfter answers defaultParityCount versionId trackShards order).slots versionId
          defaultParityCount = .ok (online, info, quorum) ∧
        ∀ copy, .ok copy ∈ arrived answers order →
          fileInfoQuorumHash env info = fileInfoQuorumHash env copy ∧
            info.versionId = copy.versionId) ↔
      ∀ copy, .ok copy ∈ arrived answers order →
        neededCopies answers.length copy ≤ (arrived answers order).countP Answer.isObject ∧
          Datable copy := by
  have running : Running answers defaultParityCount versionId order
      (fanOutAfter answers defaultParityCount versionId trackShards order) :=
    running_start answers defaultParityCount versionId trackShards inRange distinct
  have nonempty : 1 ≤ answers.length := by
    obtain ⟨index, member⟩ := exists_mem_of_ne_nil order begun
    have bound := inRange index member
    omega
  obtain ⟨explicit, candidate, member, unanimous, first, half, all⟩ :=
    version_decision running nonempty fired
  have candidateLaidOut := laidOut candidate member
  have alone := unanimous_alone running.filled unanimous
  have ignored := unanimous_ignored running.filled unanimous
  have length := slots_length running.filled
  rw [← unanimous_copies running.filled unanimous] at first half all ⊢
  rw [← length] at nonempty half all candidateLaidOut
  have settles := fun needed => @resolve_version δ env _ candidate versionId defaultParityCount
    walks disks explicit candidateLaidOut nonempty alone ignored half first all needed
  constructor
  · intro ⟨online, info, quorum, resolved, _⟩ copy copyMember
    have copied := unanimous_is_copy unanimous copyMember
    have needed := resolved_needed explicit candidateLaidOut nonempty alone resolved
    refine ⟨?_, datable_of_matches (unanimous.copies copy copyMember).2
      ((settles needed).datable resolved)⟩
    unfold neededCopies at needed ⊢
    rw [← length, copy_states candidateLaidOut.valid copied]
    exact needed
  · intro enough
    obtain ⟨needed, datable⟩ := enough candidate member
    rw [← length] at needed
    obtain ⟨online, info, quorum, resolved, sameHash, sameVersion⟩ :=
      resolved_version alone ((settles needed).resolves datable)
    refine ⟨online, info, quorum, resolved, ?_⟩
    intro copy copyMember
    have agrees := (unanimous.copies copy copyMember).2
    exact ⟨sameHash.trans (matches_quorum_hash env agrees),
      sameVersion.trans (matches_fields agrees).1⟩

/-- A version of one byte, written with the layout. -/
def versionInfo (dataBlocks parityBlocks : UInt64) : FileInfo :=
  { sampleInfo dataBlocks parityBlocks with
    versionId := some 7
    modTime := some earlySecond }

/-- Three of four drives with a three and one layout hold the version. -/
theorem three_of_four_hold_the_version :
    (∀ info, .ok info ∈ arrived (List.replicate 4 (.ok (versionInfo 3 1))) [2, 0, 1] →
        LaidOut 4 info) ∧
      ∃ online info quorum,
        resolveFileinfo .sample (.all .sorted) ([] : List (Option Unit))
            (fanOutAfter (List.replicate 4 (.ok (versionInfo 3 1))) 1 (Uuid.text 7) true
              [2, 0, 1]).slots (Uuid.text 7) 1 = .ok (online, info, quorum) ∧
          ∀ copy, .ok copy ∈ arrived (List.replicate 4 (.ok (versionInfo 3 1))) [2, 0, 1] →
            fileInfoQuorumHash .sample info = fileInfoQuorumHash .sample copy ∧
              info.versionId = copy.versionId := by
  have laidOut : ∀ info,
      .ok info ∈ arrived (List.replicate 4 (Except.ok (versionInfo 3 1))) [2, 0, 1] →
        LaidOut 4 info := by
    intro info member
    cases eq_of_mem_replicate (mem_of_arrived member)
    exact ⟨by decide, rfl⟩
  refine ⟨laidOut, ?_⟩
  apply (version_early_stop_selects_iff .sample (.all .sorted) [] _ 1 (Uuid.text 7) true [2, 0, 1]
    laidOut (by decide) (by decide) (by decide) (by decide)).2
  intro copy member
  cases eq_of_mem_replicate (mem_of_arrived member)
  exact ⟨by decide, .inl (by decide)⟩

/-- Two of four drives end the read, and are too few for a three and one layout. -/
theorem two_of_four_not_resolved :
    ¬ ∀ (env : SetRuntime) (walks : Walks) (disks : List (Option Unit)) (answers : List Answer)
        (defaultParityCount : Nat) (versionId : String) (trackShards : Bool) (order : List Nat),
      (∀ info, .ok info ∈ arrived answers order → LaidOut answers.length info) →
      (∀ index ∈ order, index < answers.length) → order.Nodup → order ≠ [] →
      (fanOutAfter answers defaultParityCount versionId trackShards
        order).accumulator.versionEarlyStopDecision.isSome = true →
      ∃ online info quorum,
        resolveFileinfo env walks disks
            (fanOutAfter answers defaultParityCount versionId trackShards order).slots versionId
            defaultParityCount = .ok (online, info, quorum) ∧
          ∀ copy, .ok copy ∈ arrived answers order →
            fileInfoQuorumHash env info = fileInfoQuorumHash env copy ∧
              info.versionId = copy.versionId := by
  intro claim
  have laidOut : ∀ info,
      .ok info ∈ arrived (List.replicate 4 (Except.ok (versionInfo 3 1))) [2, 0] →
        LaidOut 4 info := by
    intro info member
    cases eq_of_mem_replicate (mem_of_arrived member)
    exact ⟨by decide, rfl⟩
  obtain ⟨_, _, _, resolved, _⟩ := claim .sample (.all .sorted) [] _ 1 (Uuid.text 7) true [2, 0]
    laidOut (by decide) (by decide) (by decide) (by decide)
  cases resolved

end Rustfs.Ecstore
