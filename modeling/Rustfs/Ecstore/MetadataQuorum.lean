import Rustfs.Ecstore.ObjectQuorum
import Rustfs.Library.Quorum

/-!
# Early stop of a metadata fan-out

The replies of a metadata read are counted as they arrive. Once enough of them agree the
drives still out are not waited for. The accumulator holds the counts, the fan-out fills
the two vectors that are reduced afterwards. The reasons that are recorded for a miss
are left out: they decide nothing about the replies.
-/

namespace Rustfs.Ecstore

open List Library Filemeta

inductive EarlyStopReason where
  | deleteMarker
  | validQuorum
  | versionMatchQuorum
  deriving DecidableEq

structure MetadataEarlyStopDecision where
  reason : EarlyStopReason
  deriving DecidableEq

/-- The counts saturate far above the number of drives. -/
structure MetadataQuorumAccumulator where
  totalDisks : Nat
  defaultParityCount : Nat
  allowEarlyStop : Bool
  validResponses : Nat
  notFoundResponses : Nat
  versionNotFoundResponses : Nat
  ignoredErrors : Nat
  hardErrors : Nat
  candidate : Option FileInfo
  candidateVotes : Nat
  candidateShardMask : BitVec 16
  conflictingMetadata : Bool
  deleteMarkerSeen : Bool
  deleteMarkerCandidates : List (FileInfo × Nat)
  deleteMarkerVotes : Nat
  requestedVersionId : String
  matchingVersionVotes : Nat

def metadataEarlyStopCandidateMatches (left right : FileInfo) : Bool :=
  left.volume = right.volume && left.name = right.name && left.versionId = right.versionId &&
    left.isLatest = right.isLatest && left.deleted = right.deleted &&
    left.markDeleted = right.markDeleted && left.transitionStatus = right.transitionStatus &&
    left.transitionedObjname = right.transitionedObjname &&
    left.transitionTier = right.transitionTier &&
    left.transitionVersionId = right.transitionVersionId &&
    left.transitionVersion = right.transitionVersion &&
    left.transitionVersionState = right.transitionVersionState &&
    left.expireRestored = right.expireRestored && left.size = right.size &&
    left.modTime = right.modTime && left.mode = right.mode &&
    left.writtenByVersion = right.writtenByVersion && left.metadata = right.metadata &&
    left.replicationStateInternal = right.replicationStateInternal && left.parts = right.parts &&
    left.checksum = right.checksum && left.versioned = right.versioned &&
    left.numVersions = right.numVersions && left.successorModTime = right.successorModTime &&
    left.dataDir = right.dataDir && left.erasure.algorithm = right.erasure.algorithm &&
    left.erasure.dataBlocks = right.erasure.dataBlocks &&
    left.erasure.parityBlocks = right.erasure.parityBlocks &&
    left.erasure.blockSize = right.erasure.blockSize &&
    left.erasure.distribution = right.erasure.distribution

def isMetadataFanoutIgnoredError (err : DiskError) : Bool := isIgnoredErr objectOpIgnoredErrs err

namespace MetadataQuorumAccumulator

def new (totalDisks defaultParityCount : Nat) (allowEarlyStop : Bool) :
    MetadataQuorumAccumulator where
  totalDisks := totalDisks
  defaultParityCount := defaultParityCount
  allowEarlyStop := allowEarlyStop
  validResponses := 0
  notFoundResponses := 0
  versionNotFoundResponses := 0
  ignoredErrors := 0
  hardErrors := 0
  candidate := none
  candidateVotes := 0
  candidateShardMask := 0
  conflictingMetadata := false
  deleteMarkerSeen := false
  deleteMarkerCandidates := []
  deleteMarkerVotes := 0
  requestedVersionId := ""
  matchingVersionVotes := 0

def withRequestedVersionId (self : MetadataQuorumAccumulator) (versionId : String) :
    MetadataQuorumAccumulator :=
  { self with requestedVersionId := versionId }

def candidateShardBit (candidate info : FileInfo) (diskIndex : Nat) : Option (BitVec 16) :=
  (candidate.erasure.distribution[diskIndex]?).bind fun erasureIndex =>
    if erasureIndex = 0 || 16 < erasureIndex.toNat || info.erasure.index ≠ erasureIndex then none
    else some (1#16 <<< (erasureIndex.toNat - 1))

/-- The mask with the bit of the drive, when its index is known and its shard fits. -/
def shardMask (self : MetadataQuorumAccumulator) (candidate info : FileInfo)
    (diskIndex : Option Nat) : BitVec 16 :=
  match diskIndex.bind (candidateShardBit candidate info) with
  | some bit => self.candidateShardMask ||| bit
  | none => self.candidateShardMask

def requestsVersion (self : MetadataQuorumAccumulator) (info : FileInfo) : Bool :=
  !self.requestedVersionId.isEmpty && info.versionId.any fun id => id.text = self.requestedVersionId

def voteDeleteMarker (info : FileInfo) : List (FileInfo × Nat) → List (FileInfo × Nat)
  | [] => [(info, 1)]
  | (candidate, votes) :: rest =>
    if metadataEarlyStopCandidateMatches candidate info then (candidate, votes + 1) :: rest
    else (candidate, votes) :: voteDeleteMarker info rest

def observeDeleteMarker (self : MetadataQuorumAccumulator) (info : FileInfo) :
    MetadataQuorumAccumulator :=
  let candidates := voteDeleteMarker info self.deleteMarkerCandidates
  { self with
    deleteMarkerSeen := true
    deleteMarkerCandidates := candidates
    deleteMarkerVotes := (candidates.map Prod.snd).foldl max 0
    conflictingMetadata := self.conflictingMetadata || 1 < candidates.length }

def observeCandidate (self : MetadataQuorumAccumulator) (diskIndex : Option Nat)
    (info : FileInfo) : MetadataQuorumAccumulator :=
  match self.candidate with
  | some candidate =>
    if metadataEarlyStopCandidateMatches candidate info then
      { self with
        candidateVotes := self.candidateVotes + 1
        candidateShardMask := self.shardMask candidate info diskIndex }
    else { self with conflictingMetadata := true }
  | none =>
    { self with
      candidate := some info
      candidateVotes := 1
      candidateShardMask := self.shardMask info info diskIndex }

/-- The reply is valid, and may match the requested version. -/
def countResponse (self : MetadataQuorumAccumulator) (info : FileInfo) :
    MetadataQuorumAccumulator :=
  { self with
    validResponses := self.validResponses + 1
    matchingVersionVotes :=
      if self.requestsVersion info then self.matchingVersionVotes + 1
      else self.matchingVersionVotes }

def observeFileInfoWithIndex (self : MetadataQuorumAccumulator) (diskIndex : Option Nat)
    (info : FileInfo) : MetadataQuorumAccumulator :=
  if !fileInfoIsValidForMetadata info then { self with hardErrors := self.hardErrors + 1 }
  else if info.isCanonicalDeleteMarker then (self.countResponse info).observeDeleteMarker info
  else (self.countResponse info).observeCandidate diskIndex info

def observeError (self : MetadataQuorumAccumulator) (err : DiskError) :
    MetadataQuorumAccumulator :=
  if err = .fileNotFound || err = .volumeNotFound then
    { self with notFoundResponses := self.notFoundResponses + 1 }
  else if err = .fileVersionNotFound then
    { self with versionNotFoundResponses := self.versionNotFoundResponses + 1 }
  else if isMetadataFanoutIgnoredError err then
    { self with ignoredErrors := self.ignoredErrors + 1 }
  else { self with hardErrors := self.hardErrors + 1 }

def candidateLatestQuorum (self : MetadataQuorumAccumulator) (candidate : FileInfo) : Option Nat :=
  if self.defaultParityCount = 0 then some self.totalDisks
  else if candidate.isCanonicalDeleteMarker || candidate.size = 0 ||
      self.totalDisks ≤ candidate.erasure.parityBlocks.toNat then none
  else
    let dataBlocks := candidate.erasure.dataBlocks.toNat
    some (if dataBlocks = candidate.erasure.parityBlocks.toNat then dataBlocks + 1 else dataBlocks)

def defaultWriteQuorum (self : MetadataQuorumAccumulator) : Nat :=
  if self.defaultParityCount = 0 || self.totalDisks ≤ self.defaultParityCount then self.totalDisks
  else
    let dataBlocks := self.totalDisks - self.defaultParityCount
    if dataBlocks = self.defaultParityCount then dataBlocks + 1 else dataBlocks

def missingResponseQuorum (self : MetadataQuorumAccumulator) : Nat :=
  if self.defaultParityCount = 0 || self.totalDisks ≤ self.defaultParityCount then self.totalDisks
  else self.totalDisks / 2

def readQuorumForVersion (self : MetadataQuorumAccumulator) : Nat := self.missingResponseQuorum

/-- A reply that no decision may pass over. -/
def disturbed (self : MetadataQuorumAccumulator) : Bool :=
  self.conflictingMetadata || self.deleteMarkerSeen || 0 < self.notFoundResponses ||
    0 < self.versionNotFoundResponses || 0 < self.hardErrors

def earlyStopDecision (self : MetadataQuorumAccumulator) : Option MetadataEarlyStopDecision :=
  if !self.allowEarlyStop then none
  else if self.defaultWriteQuorum ≤ self.deleteMarkerVotes then some ⟨.deleteMarker⟩
  else if self.disturbed then none
  else if (self.candidate.bind self.candidateLatestQuorum).any fun latestQuorum =>
      latestQuorum ≤ self.candidateVotes then some ⟨.validQuorum⟩
  else none

def versionEarlyStopDecision (self : MetadataQuorumAccumulator) :
    Option MetadataEarlyStopDecision :=
  if !self.allowEarlyStop then none
  else if self.requestedVersionId.isEmpty then none
  else if self.disturbed then none
  else if self.readQuorumForVersion ≤ self.matchingVersionVotes then some ⟨.versionMatchQuorum⟩
  else none

end MetadataQuorumAccumulator

abbrev Answer := Except DiskError FileInfo

def Answer.reply : Answer → Reply
  | .ok info => .answered info
  | .error err => .failed err

def MetadataQuorumAccumulator.observe (self : MetadataQuorumAccumulator) (diskIndex : Option Nat) :
    Answer → MetadataQuorumAccumulator
  | .ok info => self.observeFileInfoWithIndex diskIndex info
  | .error err => self.observeError err

/-- The state of the loop: the counts, and the slots of the replies that arrived.
Shard indexes are tracked only for reads that may keep data out of the reply. -/
structure FanOut where
  accumulator : MetadataQuorumAccumulator
  trackShards : Bool
  slots : List Reply

namespace FanOut

def start (drives defaultParityCount : Nat) (versionId : String) (trackShards : Bool) :
    FanOut where
  accumulator := (MetadataQuorumAccumulator.new drives defaultParityCount true).withRequestedVersionId
    versionId
  trackShards := trackShards
  slots := List.replicate drives .unanswered

def receive (self : FanOut) (index : Nat) (answer : Answer) : FanOut :=
  { self with
    accumulator := self.accumulator.observe (if self.trackShards then some index else none) answer
    slots := self.slots.set index answer.reply }

/-- The answers of the drives in the order of their arrival. -/
def run (self : FanOut) (answers : List Answer) : List Nat → FanOut
  | [] => self
  | index :: order =>
    match answers[index]? with
    | some answer => (self.receive index answer).run answers order
    | none => self.run answers order

end FanOut

/-- A reply that disturbs no decision: metadata of a possible shape, or an error that
only says the drive is away. -/
def Orderly : Answer → Prop
  | .ok info => fileInfoIsValidForMetadata info = true
  | .error err => isMetadataFanoutIgnoredError err = true

def Answer.isObject : Answer → Bool
  | .ok info => fileInfoIsValidForMetadata info && !info.isCanonicalDeleteMarker
  | .error _ => false

def Answer.isRequested (acc : MetadataQuorumAccumulator) : Answer → Bool
  | .ok info => fileInfoIsValidForMetadata info && acc.requestsVersion info
  | .error _ => false

/-- What the counts say about the replies seen so far. -/
structure Tracks (seen : List Answer) (acc : MetadataQuorumAccumulator) : Prop where
  orderly : acc.notFoundResponses = 0 → acc.versionNotFoundResponses = 0 → acc.hardErrors = 0 →
    ∀ answer ∈ seen, Orderly answer
  candidateSeen : ∀ candidate, acc.candidate = some candidate →
    .ok candidate ∈ seen ∧ Answer.isObject (.ok candidate) = true
  agreed : acc.conflictingMetadata = false → ∀ info, .ok info ∈ seen →
    Answer.isObject (.ok info) = true →
      ∃ candidate, acc.candidate = some candidate ∧
        metadataEarlyStopCandidateMatches candidate info = true
  candidateVotes : acc.conflictingMetadata = false →
    acc.candidateVotes = seen.countP Answer.isObject
  marked : acc.deleteMarkerSeen = true →
    ∃ info, .ok info ∈ seen ∧ info.isCanonicalDeleteMarker = true
  markerVotes : acc.deleteMarkerSeen = false → acc.deleteMarkerVotes = 0
  unmarked : acc.deleteMarkerSeen = false → ∀ info, .ok info ∈ seen →
    fileInfoIsValidForMetadata info = true → info.isCanonicalDeleteMarker = false
  versionVotes : acc.matchingVersionVotes = seen.countP (Answer.isRequested acc)

theorem matches_self (info : FileInfo) : metadataEarlyStopCandidateMatches info info = true := by
  unfold metadataEarlyStopCandidateMatches
  simp

theorem tracks_new (drives defaultParityCount : Nat) (versionId : String) :
    Tracks [] ((MetadataQuorumAccumulator.new drives defaultParityCount true).withRequestedVersionId
      versionId) where
  orderly _ _ _ := by simp
  candidateSeen _ isCandidate := by cases isCandidate
  agreed _ _ member := by cases member
  candidateVotes _ := rfl
  marked seen := by cases seen
  markerVotes _ := rfl
  unmarked _ _ member := by cases member
  versionVotes := rfl

open MetadataQuorumAccumulator

section Step

variable {seen : List Answer} {acc next : MetadataQuorumAccumulator} {answer : Answer}
  {info : FileInfo}

theorem requested_of_same_version (same : next.requestedVersionId = acc.requestedVersionId) :
    Answer.isRequested next = Answer.isRequested acc := by
  funext answer
  cases answer with
  | ok info => simp only [Answer.isRequested, requestsVersion, same]
  | error err => rfl

theorem count_append (holds : Answer → Bool) :
    (seen ++ [answer]).countP holds = seen.countP holds + if holds answer then 1 else 0 := by
  simp [countP_append, countP_singleton]

theorem mem_ok_append (other : .ok info ∈ seen ++ [answer]) :
    .ok info ∈ seen ∨ answer = .ok info := by
  rcases mem_append.1 other with earlier | last
  · exact .inl earlier
  · exact .inr (mem_singleton.1 last).symm

theorem tracks_aside (tracks : Tracks seen acc)
    (unusable : ∀ info, answer = .ok info → fileInfoIsValidForMetadata info = false)
    (candidate : next.candidate = acc.candidate)
    (conflicting : next.conflictingMetadata = acc.conflictingMetadata)
    (votes : next.candidateVotes = acc.candidateVotes)
    (markerSeen : next.deleteMarkerSeen = acc.deleteMarkerSeen)
    (markerVotes : next.deleteMarkerVotes = acc.deleteMarkerVotes)
    (version : next.requestedVersionId = acc.requestedVersionId)
    (versionVotes : next.matchingVersionVotes = acc.matchingVersionVotes)
    (orderly : next.notFoundResponses = 0 → next.versionNotFoundResponses = 0 →
      next.hardErrors = 0 → acc.notFoundResponses = 0 ∧ acc.versionNotFoundResponses = 0 ∧
        acc.hardErrors = 0 ∧ Orderly answer) : Tracks (seen ++ [answer]) next := by
  have notObject : answer.isObject = false := by
    cases answer with
    | ok info => simp [Answer.isObject, unusable info rfl]
    | error err => rfl
  have notRequested : answer.isRequested acc = false := by
    cases answer with
    | ok info => simp [Answer.isRequested, unusable info rfl]
    | error err => rfl
  constructor
  · intro noneMissing noVersionMissing noneHard other member
    obtain ⟨noneBefore, noVersionBefore, noneHardBefore, isOrderly⟩ :=
      orderly noneMissing noVersionMissing noneHard
    rcases mem_append.1 member with earlier | last
    · exact tracks.orderly noneBefore noVersionBefore noneHardBefore other earlier
    · exact (mem_singleton.1 last) ▸ isOrderly
  · intro found isCandidate
    obtain ⟨member, isObject⟩ := tracks.candidateSeen found (candidate ▸ isCandidate)
    exact ⟨mem_append_left _ member, isObject⟩
  · intro agreeing info member isObject
    rw [candidate]
    rcases mem_ok_append member with earlier | last
    · exact tracks.agreed (conflicting ▸ agreeing) info earlier isObject
    · rw [last] at notObject
      exact absurd isObject (Bool.eq_false_iff.1 notObject)
  · intro agreeing
    rw [votes, tracks.candidateVotes (conflicting ▸ agreeing), count_append, notObject]
    rfl
  · intro isSeen
    obtain ⟨info, member, isMarker⟩ := tracks.marked (markerSeen ▸ isSeen)
    exact ⟨info, mem_append_left _ member, isMarker⟩
  · intro unseen
    rw [markerVotes]
    exact tracks.markerVotes (markerSeen ▸ unseen)
  · intro unseen info member valid
    rcases mem_ok_append member with earlier | last
    · exact tracks.unmarked (markerSeen ▸ unseen) info earlier valid
    · rw [unusable info last] at valid
      cases valid
  · rw [versionVotes, requested_of_same_version version, count_append, notRequested]
    exact tracks.versionVotes

theorem tracks_error (tracks : Tracks seen acc) (err : DiskError) :
    Tracks (seen ++ [.error err]) (acc.observeError err) := by
  unfold observeError
  split
  · apply tracks_aside tracks <;> simp
  split
  · apply tracks_aside tracks <;> simp
  split
  · apply tracks_aside tracks <;> simp_all [Orderly]
  · apply tracks_aside tracks <;> simp

theorem tracks_invalid (tracks : Tracks seen acc)
    (invalid : fileInfoIsValidForMetadata info = false) :
    Tracks (seen ++ [.ok info]) { acc with hardErrors := acc.hardErrors + 1 } := by
  apply tracks_aside tracks <;> simp [invalid]

theorem orderly_append (tracks : Tracks seen acc) (isOrderly : Orderly answer)
    (noneMissing : acc.notFoundResponses = 0) (noVersionMissing : acc.versionNotFoundResponses = 0)
    (noneHard : acc.hardErrors = 0) : ∀ other ∈ seen ++ [answer], Orderly other := by
  intro other member
  rcases mem_append.1 member with earlier | last
  · exact tracks.orderly noneMissing noVersionMissing noneHard other earlier
  · exact (mem_singleton.1 last) ▸ isOrderly

theorem version_votes_append (tracks : Tracks seen acc)
    (valid : fileInfoIsValidForMetadata info = true) :
    (acc.countResponse info).matchingVersionVotes =
      (seen ++ [Except.ok info]).countP (Answer.isRequested acc) := by
  rw [count_append, ← tracks.versionVotes]
  simp only [countResponse, Answer.isRequested, valid, Bool.true_and]
  split <;> rfl

theorem tracks_marker (tracks : Tracks seen acc) (valid : fileInfoIsValidForMetadata info = true)
    (isMarker : info.isCanonicalDeleteMarker = true) :
    Tracks (seen ++ [.ok info]) ((acc.countResponse info).observeDeleteMarker info) where
  orderly noneMissing noVersionMissing noneHard :=
    orderly_append tracks valid noneMissing noVersionMissing noneHard
  candidateSeen found isCandidate := by
    obtain ⟨member, isObject⟩ := tracks.candidateSeen found isCandidate
    exact ⟨mem_append_left _ member, isObject⟩
  agreed agreeing other member isObject := by
    have agreeingBefore : acc.conflictingMetadata = false := (Bool.or_eq_false_iff.1 agreeing).1
    rcases mem_ok_append member with earlier | last
    · exact tracks.agreed agreeingBefore other earlier isObject
    · cases last
      simp [Answer.isObject, isMarker] at isObject
  candidateVotes agreeing := by
    have agreeingBefore : acc.conflictingMetadata = false := (Bool.or_eq_false_iff.1 agreeing).1
    rw [count_append, ← tracks.candidateVotes agreeingBefore]
    simp [Answer.isObject, isMarker, observeDeleteMarker,
      countResponse]
  marked _ := ⟨info, by simp, isMarker⟩
  markerVotes unseen := by cases unseen
  unmarked unseen := by cases unseen
  versionVotes := by
    have votes := version_votes_append tracks valid
    exact votes

theorem is_object (valid : fileInfoIsValidForMetadata info = true)
    (notMarker : info.isCanonicalDeleteMarker = false) : Answer.isObject (.ok info) = true := by
  simp [Answer.isObject, valid, notMarker]

theorem unmarked_append (tracks : Tracks seen acc) (notMarker : info.isCanonicalDeleteMarker = false)
    (unseen : acc.deleteMarkerSeen = false) (other : FileInfo)
    (member : .ok other ∈ seen ++ [.ok info]) (valid : fileInfoIsValidForMetadata other = true) :
    other.isCanonicalDeleteMarker = false := by
  rcases mem_ok_append member with earlier | last
  · exact tracks.unmarked unseen other earlier valid
  · cases last
    exact notMarker

theorem marked_append (tracks : Tracks seen acc) (isSeen : acc.deleteMarkerSeen = true) :
    ∃ other, .ok other ∈ seen ++ [answer] ∧ other.isCanonicalDeleteMarker = true := by
  obtain ⟨other, member, isMarker⟩ := tracks.marked isSeen
  exact ⟨other, mem_append_left _ member, isMarker⟩

theorem no_objects (tracks : Tracks seen acc) (unset : acc.candidate = none)
    (agreeing : acc.conflictingMetadata = false) :
    ∀ other, .ok other ∈ seen → Answer.isObject (.ok other) ≠ true := by
  intro other member otherObject
  obtain ⟨candidate, isCandidate, _⟩ := tracks.agreed agreeing other member otherObject
  rw [unset] at isCandidate
  cases isCandidate

theorem tracks_first_object (tracks : Tracks seen acc)
    (valid : fileInfoIsValidForMetadata info = true)
    (notMarker : info.isCanonicalDeleteMarker = false) (unset : acc.candidate = none)
    (mask : BitVec 16) :
    Tracks (seen ++ [.ok info])
      { acc.countResponse info with
        candidate := some info, candidateVotes := 1, candidateShardMask := mask } where
  orderly := @orderly_append seen acc (.ok info) tracks valid
  candidateSeen found isCandidate := by
    cases isCandidate
    exact ⟨by simp, is_object valid notMarker⟩
  agreed agreeing other member otherObject := by
    refine ⟨info, rfl, ?_⟩
    rcases mem_ok_append member with earlier | last
    · exact absurd otherObject (no_objects tracks unset agreeing other earlier)
    · cases last
      exact matches_self info
  candidateVotes agreeing := by
    have nothing : seen.countP Answer.isObject = 0 := by
      rw [countP_eq_zero]
      intro other member
      cases other with
      | ok other => exact no_objects tracks unset agreeing other member
      | error err => simp [Answer.isObject]
    rw [count_append, nothing, is_object valid notMarker]
    rfl
  marked := @marked_append seen acc (.ok info) tracks
  markerVotes := tracks.markerVotes
  unmarked := @unmarked_append seen acc info tracks notMarker
  versionVotes := version_votes_append tracks valid

theorem candidate_seen_append (tracks : Tracks seen acc) (found : FileInfo)
    (isCandidate : acc.candidate = some found) :
    .ok found ∈ seen ++ [answer] ∧ Answer.isObject (.ok found) = true := by
  obtain ⟨member, isObject⟩ := tracks.candidateSeen found isCandidate
  exact ⟨mem_append_left _ member, isObject⟩

section

variable (tracks : Tracks seen acc) (valid : fileInfoIsValidForMetadata info = true)
  (notMarker : info.isCanonicalDeleteMarker = false)

include tracks valid notMarker

theorem tracks_agreeing_object {candidate : FileInfo} (held : acc.candidate = some candidate)
    (agrees : metadataEarlyStopCandidateMatches candidate info = true) (mask : BitVec 16) :
    Tracks (seen ++ [.ok info])
      { acc.countResponse info with
        candidateVotes := acc.candidateVotes + 1, candidateShardMask := mask } where
  orderly := @orderly_append seen acc (.ok info) tracks valid
  candidateSeen := @candidate_seen_append seen acc (.ok info) tracks
  agreed agreeing other member otherObject := by
    rcases mem_ok_append member with earlier | last
    · exact tracks.agreed agreeing other earlier otherObject
    · cases last
      exact ⟨candidate, held, agrees⟩
  candidateVotes agreeing := by
    rw [count_append, ← tracks.candidateVotes agreeing, is_object valid notMarker]
    rfl
  marked := @marked_append seen acc (.ok info) tracks
  markerVotes := tracks.markerVotes
  unmarked := @unmarked_append seen acc info tracks notMarker
  versionVotes := version_votes_append tracks valid

theorem tracks_conflicting_object :
    Tracks (seen ++ [.ok info]) { acc.countResponse info with conflictingMetadata := true } where
  orderly := @orderly_append seen acc (.ok info) tracks valid
  candidateSeen := @candidate_seen_append seen acc (.ok info) tracks
  agreed agreeing := by cases agreeing
  candidateVotes agreeing := by cases agreeing
  marked := @marked_append seen acc (.ok info) tracks
  markerVotes := tracks.markerVotes
  unmarked := @unmarked_append seen acc info tracks notMarker
  versionVotes := version_votes_append tracks valid

theorem tracks_object (diskIndex : Option Nat) :
    Tracks (seen ++ [.ok info]) ((acc.countResponse info).observeCandidate diskIndex info) := by
  unfold observeCandidate
  cases held : (acc.countResponse info).candidate with
  | none => exact tracks_first_object tracks valid notMarker held _
  | some candidate =>
    by_cases agrees : metadataEarlyStopCandidateMatches candidate info = true
    · simp only [agrees, if_true, ← held]
      exact tracks_agreeing_object tracks valid notMarker held agrees _
    · simp only [agrees, Bool.false_eq_true, if_false, ← held]
      exact tracks_conflicting_object tracks valid notMarker

end

theorem tracks_observe (tracks : Tracks seen acc) (diskIndex : Option Nat) (answer : Answer) :
    Tracks (seen ++ [answer]) (acc.observe diskIndex answer) := by
  cases answer with
  | error err => exact tracks_error tracks err
  | ok info =>
    unfold observe observeFileInfoWithIndex
    dsimp only
    cases valid : fileInfoIsValidForMetadata info with
    | false => exact tracks_invalid tracks valid
    | true =>
      cases marker : info.isCanonicalDeleteMarker with
      | true => exact tracks_marker tracks valid marker
      | false => exact tracks_object tracks valid marker diskIndex

end Step

def arrived (answers : List Answer) (order : List Nat) : List Answer :=
  order.filterMap fun index => answers[index]?

variable {answers : List Answer} {order : List Nat} {answer : Answer}
  {index defaultParityCount : Nat} {versionId : String} {state : FanOut}

theorem mem_of_arrived (member : answer ∈ arrived answers order) : answer ∈ answers := by
  obtain ⟨index, _, found⟩ := mem_filterMap.1 member
  exact mem_of_getElem? found

/-- What the slots hold after the given arrivals: the reply of a drive, or nothing
yet. -/
structure Filled (answers : List Answer) (order : List Nat) (slots : List Reply) : Prop where
  pending : List.Forall₂ (fun slot reply => slot = reply ∨ slot = .unanswered) slots
    (answers.map Answer.reply)
  fresh : ∀ index < answers.length, index ∉ order → slots[index]? = some .unanswered
  counts : ∀ holds : Reply → Bool, holds .unanswered = false →
    slots.countP holds = (arrived answers order).countP fun answer => holds answer.reply

theorem filled_start (answers : List Answer) :
    Filled answers [] (List.replicate answers.length .unanswered) where
  pending := by
    induction answers with
    | nil => exact .nil
    | cons answer answers ih => exact .cons (.inr rfl) ih
  fresh index inRange _ := getElem?_replicate_of_lt inRange
  counts holds silent := by
    rw [countP_replicate, silent]
    rfl

theorem filled_receive {slots : List Reply} (filled : Filled answers order slots)
    (found : answers[index]? = some answer) (unseen : index ∉ order) :
    Filled answers (order ++ [index]) (slots.set index answer.reply) where
  pending := by
    apply Quorum.forall₂_set filled.pending _ (.inl rfl)
    rw [getElem?_map, found]
    rfl
  fresh other inRange outside := by
    simp only [mem_append, mem_singleton, not_or] at outside
    rw [getElem?_set_ne (fun same => outside.2 same.symm)]
    exact filled.fresh other inRange outside.1
  counts holds silent := by
    have inRange : index < answers.length := (List.getElem?_eq_some_iff.1 found).1
    obtain ⟨inSlots, isFresh⟩ := List.getElem?_eq_some_iff.1 (filled.fresh index inRange unseen)
    rw [countP_set inSlots, isFresh, silent, filled.counts holds silent]
    simp [arrived, filterMap_append, found, countP_append, countP_singleton]

theorem observe_fixed (acc : MetadataQuorumAccumulator) (diskIndex : Option Nat) (answer : Answer) :
    (acc.observe diskIndex answer).totalDisks = acc.totalDisks ∧
      (acc.observe diskIndex answer).defaultParityCount = acc.defaultParityCount ∧
      (acc.observe diskIndex answer).allowEarlyStop = acc.allowEarlyStop ∧
      (acc.observe diskIndex answer).requestedVersionId = acc.requestedVersionId := by
  cases answer with
  | error err =>
    unfold observe observeError
    dsimp only
    split
    · simp
    split
    · simp
    split <;> simp
  | ok info =>
    unfold observe observeFileInfoWithIndex
      observeCandidate observeDeleteMarker
      countResponse
    dsimp only
    split
    · simp
    split
    · simp
    split
    · split <;> simp
    · simp

structure Running (answers : List Answer) (defaultParityCount : Nat) (versionId : String)
    (order : List Nat) (state : FanOut) : Prop where
  tracks : Tracks (arrived answers order) state.accumulator
  filled : Filled answers order state.slots
  drives : state.accumulator.totalDisks = answers.length
  parity : state.accumulator.defaultParityCount = defaultParityCount
  allowed : state.accumulator.allowEarlyStop = true
  version : state.accumulator.requestedVersionId = versionId

theorem running_receive (running : Running answers defaultParityCount versionId order state)
    (found : answers[index]? = some answer) (unseen : index ∉ order) :
    Running answers defaultParityCount versionId (order ++ [index])
      (state.receive index answer) := by
  obtain ⟨drives, parity, allowed, version⟩ := observe_fixed state.accumulator
    (if state.trackShards then some index else none) answer
  have seen : arrived answers (order ++ [index]) = arrived answers order ++ [answer] := by
    simp [arrived, filterMap_append, found]
  constructor
  · rw [seen]
    exact tracks_observe running.tracks _ answer
  · exact filled_receive running.filled found unseen
  · exact drives.trans running.drives
  · exact parity.trans running.parity
  · exact allowed.trans running.allowed
  · exact version.trans running.version

theorem running_run {received order : List Nat}
    (running : Running answers defaultParityCount versionId received state)
    (inRange : ∀ index ∈ order, index < answers.length) (distinct : (received ++ order).Nodup) :
    Running answers defaultParityCount versionId (received ++ order) (state.run answers order) := by
  induction order generalizing received state with
  | nil =>
    rw [append_nil]
    exact running
  | cons index order ih =>
    have bound := inRange index mem_cons_self
    have found : answers[index]? = some answers[index] := getElem?_eq_getElem bound
    rw [FanOut.run, found]
    rw [← singleton_append, ← append_assoc] at distinct ⊢
    apply ih (running_receive running found _) _ distinct
    · intro seen
      have apart := (nodup_append.1 (nodup_append.1 distinct).1).2.2
      exact apart index seen index (by simp) rfl
    · intro other member
      exact inRange other (mem_cons_of_mem _ member)

theorem running_start (answers : List Answer) (defaultParityCount : Nat) (versionId : String)
    (trackShards : Bool) (inRange : ∀ index ∈ order, index < answers.length)
    (distinct : order.Nodup) :
    Running answers defaultParityCount versionId order
      ((FanOut.start answers.length defaultParityCount versionId trackShards).run answers order) := by
  have begun : Running answers defaultParityCount versionId []
      (FanOut.start answers.length defaultParityCount versionId trackShards) :=
    ⟨tracks_new _ _ _, filled_start answers, rfl, rfl, rfl, rfl⟩
  exact running_run begun inRange distinct

end Rustfs.Ecstore
