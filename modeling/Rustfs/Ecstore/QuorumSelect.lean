import Rustfs.Ecstore.ObjectQuorum
import Mathlib.Data.List.Induction

/-!
# Selecting the metadata of an object

From the replies of a set one `FileInfo` is selected: the drives first agree on a
modification time, or else on an etag, and the most frequent identity among the replies
that carry it wins when it reaches the quorum. The drives stay online by the agreed time
or etag. The drives themselves are any type; only their order in the vector counts.
-/

namespace Rustfs.Ecstore

open List Library Library.MessagePack Library.Tally Filemeta

def Reply.modTime (reply : Reply) : Option OffsetDateTime :=
  if reply.err.isSome then none else reply.info.modTime

def Reply.etag (reply : Reply) : Option String :=
  if reply.err.isSome then none else reply.info.getEtag

def listObjectModtimes (replies : List Reply) : List (Option OffsetDateTime) :=
  replies.map Reply.modTime

def listObjectEtags (replies : List Reply) : List (Option String) := replies.map Reply.etag

/-- The best count so far and the latest time with it. -/
def latestStep (best : Nat × Int) (entry : Int × Nat) : Nat × Int :=
  if entry.2 < best.1 then best
  else if best.1 < entry.2 ∨ best.2 < entry.1 then (entry.2, entry.1)
  else best

def timeCounts (times : List (Option OffsetDateTime)) : List (Int × Nat) :=
  tally (fun left right => left == right)
    ((times.filterMap id).map OffsetDateTime.unixTimestampNanos)

def commonTimeAndOccurrence (walk : Walk) (times : List (Option OffsetDateTime)) :
    Option OffsetDateTime × Nat :=
  let best := (walk.enumerate (timeCounts times)).foldl latestStep (0, 0)
  if best.2 = 0 then (none, best.1) else (OffsetDateTime.fromUnixTimestampNanos best.2, best.1)

def commonTime (walk : Walk) (times : List (Option OffsetDateTime)) (quorum : Nat) :
    Option OffsetDateTime :=
  let common := commonTimeAndOccurrence walk times
  if quorum ≤ common.2 then common.1 else none

def commonEtags (walk : Walk) (etags : List (Option String)) : Option String × Nat :=
  match firstMax (walk.enumerate (tally (fun left right => left == right) (etags.filterMap id))) with
  | none => (none, 0)
  | some best => (some best.1, best.2)

def commonEtag (walk : Walk) (etags : List (Option String)) (quorum : Nat) : Option String :=
  let common := commonEtags walk etags
  if quorum ≤ common.2 then common.1 else none

/-- What the drives agree on; an etag only where they agree on no time. -/
structure Agreed where
  modTime : Option OffsetDateTime
  etag : Option String
  deriving DecidableEq

def agreedOn (walks : Walks) (replies : List Reply) (quorum : Nat) : Agreed :=
  let modTime := commonTime walks.times (listObjectModtimes replies) quorum
  ⟨modTime, if modTime.isNone then commonEtag walks.etags (listObjectEtags replies) quorum else none⟩

def Agreed.keeps (agreed : Agreed) (reply : Reply) : Bool :=
  fileInfoIsValidForMetadata reply.info &&
    match agreed.etag with
    | some etag => reply.etag = some etag
    | none => agreed.modTime = reply.modTime

section Disks

variable {δ : Type}

def keepDisks (disks : List (Option δ)) (replies : List Reply) (keep : Reply → Bool) :
    List (Option δ) :=
  disks.mapIdx fun index disk => if (replies[index]?).any keep then disk else none

def listOnlineDisks (walks : Walks) (disks : List (Option δ)) (replies : List Reply)
    (quorum : Nat) : List (Option δ) × Agreed :=
  let agreed := agreedOn walks replies quorum
  (keepDisks disks replies agreed.keeps, agreed)

end Disks

def Agreed.admits (agreed : Agreed) (info : FileInfo) : Bool :=
  fileInfoIsValidForMetadata info &&
    ((agreed.modTime.isNone && agreed.etag.isSome && info.getEtag = agreed.etag) ||
      agreed.modTime = info.modTime)

structure ObjProps where
  successorModTime : Option OffsetDateTime
  numVersions : Nat
  deriving DecidableEq

def objProps (info : FileInfo) : ObjProps := ⟨info.successorModTime, info.numVersions⟩

def withObjProps (info : FileInfo) (props : ObjProps) : FileInfo :=
  { info with
    successorModTime := props.successorModTime
    numVersions := props.numVersions
    isLatest := props.successorModTime.isNone }

section Select

variable (env : SetRuntime) {δ : Type}

def admittedHashes (metas : List FileInfo) (agreed : Agreed) : List Bytes :=
  (metas.filter agreed.admits).map (fileInfoQuorumHash env)

/-- The copies with the winning identity; the first of them is returned, with the
properties a quorum of them has. -/
def foundIn (walk : Walk) (group : List FileInfo) (quorum : Nat) : Except DiskError FileInfo :=
  match group with
  | [] => .error .erasureReadQuorum
  | first :: _ =>
    let validObjMap := tally (fun left right => left == right) (group.map objProps)
    match (walk.enumerate validObjMap).find? fun entry => quorum ≤ entry.2 with
    | some entry => .ok (withObjProps first entry.1)
    | none => .ok first

def findFileInfoInQuorum (walks : Walks) (metas : List FileInfo) (agreed : Agreed)
    (quorum : Nat) : Except DiskError FileInfo :=
  if quorum < 1 then .error .erasureReadQuorum
  else
    let countMap := tally (fun left right => left == right) (admittedHashes env metas agreed)
    match firstMax (walks.identities.enumerate countMap) with
    | none => .error .erasureReadQuorum
    | some max =>
      if max.2 < quorum then .error .erasureReadQuorum
      else
        foundIn walks.properties
          (metas.filter fun info => agreed.admits info && fileInfoQuorumHash env info = max.1)
          quorum

def usableFileinfoCount (replies : List Reply) : Nat × Bool :=
  (replies.countP Reply.usable, replies.any fun reply => reply.err.isSome)

def usableInfos (replies : List Reply) : List FileInfo :=
  (replies.filter Reply.usable).map Reply.info

def latestFileinfoSelectionQuorum (versionId : String) (replies : List Reply)
    (readQuorum writeQuorum : Nat) : Nat :=
  if !versionId.isEmpty || writeQuorum ≤ readQuorum then readQuorum
  else
    let count := usableFileinfoCount replies
    if count.1 < writeQuorum then readQuorum
    else if !count.2 then writeQuorum
    else
      let identityCounts := tally (fun left right => left == right)
        ((usableInfos replies).map (fileInfoQuorumHash env))
      if identityCounts.any fun entry => writeQuorum ≤ entry.2 then writeQuorum else readQuorum

def latestFileinfoIdentityGroups (replies : List Reply) : List (FileInfo × Nat) :=
  tally (fun left right => fileInfoQuorumHash env left == fileInfoQuorumHash env right)
    (usableInfos replies)

def Reply.holds (hash : Bytes) (reply : Reply) : Bool :=
  reply.usable && fileInfoQuorumHash env reply.info = hash

def pickFileinfoIdentity (disks : List (Option δ)) (replies : List Reply) (hash : Bytes)
    (quorum : Nat) : Except DiskError (List (Option δ) × FileInfo) :=
  if replies.countP (Reply.holds env hash) < quorum then .error .erasureReadQuorum
  else
    match replies.find? (Reply.holds env hash) with
    | none => .error .erasureReadQuorum
    | some reply =>
      .ok (keepDisks disks replies (Reply.holds env hash),
        { reply.info with isLatest := reply.info.successorModTime.isNone })

/-- Later times first, none last; among equal times greater groups first. -/
def groupBefore (left right : FileInfo × Nat) : Bool :=
  match left.1.modTime, right.1.modTime with
  | some leftTime, some rightTime =>
    rightTime < leftTime || (leftTime = rightTime && right.2 ≤ left.2)
  | some _, none => true
  | none, some _ => false
  | none, none => right.2 ≤ left.2

def pickDegradedLatestFileinfo (disks : List (Option δ)) (replies : List Reply)
    (readQuorum writeQuorum : Nat) : Except DiskError (List (Option δ) × FileInfo) :=
  let groups := (latestFileinfoIdentityGroups env replies).mergeSort groupBefore
  match groups with
  | [] => .error .erasureReadQuorum
  | latest :: _ =>
    let isLatest (group : FileInfo × Nat) : Bool := group.1.modTime = latest.1.modTime
    let leading := groups.takeWhile isLatest
    match leading.find? fun group => writeQuorum ≤ group.2 with
    | some group =>
      pickFileinfoIdentity env disks replies (fileInfoQuorumHash env group.1) writeQuorum
    | none =>
      if 1 < leading.length then .error .erasureReadQuorum
      else
        match (groups.drop leading.length).find? fun group => readQuorum ≤ group.2 with
        | some group =>
          pickFileinfoIdentity env disks replies (fileInfoQuorumHash env group.1) readQuorum
        | none => .error .erasureReadQuorum

def isDegraded (versionId : String) (replies : List Reply) (readQuorum writeQuorum : Nat) : Bool :=
  let count := usableFileinfoCount replies
  versionId.isEmpty && readQuorum < writeQuorum && count.2 && writeQuorum ≤ count.1 &&
    latestFileinfoSelectionQuorum env versionId replies readQuorum writeQuorum = readQuorum

def selectValidFileinfo (walks : Walks) (disks : List (Option δ)) (replies : List Reply)
    (versionId : String) (readQuorum writeQuorum : Nat) :
    Except DiskError (List (Option δ) × FileInfo × Nat) :=
  let selectionQuorum :=
    latestFileinfoSelectionQuorum env versionId replies readQuorum writeQuorum
  if isDegraded env versionId replies readQuorum writeQuorum then
    match pickDegradedLatestFileinfo env disks replies readQuorum writeQuorum with
    | .error err => .error err
    | .ok picked => .ok (picked.1, picked.2, readQuorum)
  else
    let online := listOnlineDisks walks disks replies selectionQuorum
    match findFileInfoInQuorum env walks (replies.map Reply.info) online.2 selectionQuorum with
    | .error err => .error err
    | .ok info => .ok (online.1, info, selectionQuorum)

end Select

section Times

variable {times : List (Option OffsetDateTime)} {quorum : Nat} (walk : Walk)

theorem from_unix_timestamp_nanos_self (time : OffsetDateTime) :
    OffsetDateTime.fromUnixTimestampNanos time.unixTimestampNanos = some time :=
  dif_pos time.inRange

/-- How many times of the list are the instant. -/
def timeVotes (times : List (Option OffsetDateTime)) (nanos : Int) : Nat :=
  times.countP fun time => time.map OffsetDateTime.unixTimestampNanos = some nanos

theorem nanos_agree (left right : Int) : (left == right) = true ↔ id left = id right := by
  simp

theorem time_counts :
    Counts id ((times.filterMap id).map OffsetDateTime.unixTimestampNanos) (timeCounts times) :=
  counts_tally nanos_agree _

theorem votes_nanos (nanos : Int) :
    votes id ((times.filterMap id).map OffsetDateTime.unixTimestampNanos) nanos =
      timeVotes times nanos := by
  rw [map_filterMap, votes_filter_map]
  rfl

theorem latest_step_leads {entries : List (Int × Nat)} (positive : ∀ entry ∈ entries, 0 < entry.2) :
    (entries = [] ∧ entries.foldl latestStep (0, 0) = (0, 0)) ∨
      Leads entries ((entries.foldl latestStep (0, 0)).2, (entries.foldl latestStep (0, 0)).1) := by
  induction entries using List.reverseRecOn with
  | nil => exact .inl ⟨rfl, rfl⟩
  | append_singleton entries last ih =>
    right
    have lastPositive : 0 < last.2 := positive last (by simp)
    rw [foldl_append]
    simp only [foldl_cons, foldl_nil]
    rcases ih fun entry member => positive entry (mem_append_left _ member) with
      ⟨rfl, zero⟩ | leads
    · have chosen : latestStep ([].foldl latestStep (0, 0)) last = (last.2, last.1) := by
        rw [zero, latestStep, if_neg (by simp), if_pos (.inl lastPositive)]
      rw [chosen]
      exact leads_last (by simp)
    · rw [latestStep]
      split
      · rename_i below
        exact leads_append_of_le leads (le_of_lt below)
      · rename_i notBelow
        split
        · apply leads_last
          intro other member
          exact le_trans (leads.2 other member) (not_lt.1 notBelow)
        · rename_i notAbove
          exact leads_append_of_le leads (not_lt.1 fun above => notAbove (.inl above))

/-- Of two times with as many votes the later one is taken. -/
theorem latest_step_latest {entries : List (Int × Nat)} (positive : ∀ entry ∈ entries, 0 < entry.2) :
    ∀ entry ∈ entries, entry.2 = (entries.foldl latestStep (0, 0)).1 →
      entry.1 ≤ (entries.foldl latestStep (0, 0)).2 := by
  induction entries using List.reverseRecOn with
  | nil => simp
  | append_singleton entries last ih =>
    have before : ∀ entry ∈ entries, 0 < entry.2 := fun entry member =>
      positive entry (mem_append_left _ member)
    have bounded : ∀ entry ∈ entries, entry.2 ≤ (entries.foldl latestStep (0, 0)).1 := by
      rcases latest_step_leads before with ⟨rfl, _⟩ | leads
      · simp
      · exact leads.2
    rw [foldl_append, foldl_cons, foldl_nil]
    generalize entries.foldl latestStep (0, 0) = best at ih bounded
    intro entry member
    unfold latestStep
    rcases mem_append.1 member with old | new
    · have kept := ih before entry old
      have below := bounded entry old
      split
      · exact kept
      · split
        · rename_i notBelow above
          intro equal
          dsimp only at equal ⊢
          have isBest : entry.2 = best.1 := by omega
          have within := kept isBest
          omega
        · exact kept
    · rw [mem_singleton.1 new]
      split
      · intro equal
        omega
      · split
        · exact fun _ => le_rfl
        · rename_i notAbove
          intro _
          omega

/-- The time with the most votes, and of several the latest. -/
def LeadingTime (times : List (Option OffsetDateTime)) (nanos : Int) : Prop :=
  ∀ other, timeVotes times other < timeVotes times nanos ∨
    (timeVotes times other = timeVotes times nanos ∧ other ≤ nanos)

theorem common_time_top :
    (∃ nanos, LeadingTime times nanos ∧
      commonTimeAndOccurrence walk times =
        (if nanos = 0 then none else OffsetDateTime.fromUnixTimestampNanos nanos,
          timeVotes times nanos)) ∨
      ((∀ nanos, timeVotes times nanos = 0) ∧ commonTimeAndOccurrence walk times = (none, 0)) := by
  have positive : ∀ entry ∈ walk.enumerate (timeCounts times), 0 < entry.2 := by
    intro entry member
    exact time_counts.positive entry (walk.mem_enumerate.1 member)
  unfold commonTimeAndOccurrence
  rcases latest_step_leads positive with ⟨empty, zero⟩ | leads
  · right
    rw [zero]
    refine ⟨?_, rfl⟩
    intro nanos
    rw [enumerate_eq_nil, timeCounts, tally_eq_nil nanos_agree] at empty
    rw [← votes_nanos, empty]
    rfl
  · left
    have latest := latest_step_latest positive
    generalize (walk.enumerate (timeCounts times)).foldl latestStep (0, 0) = best at leads latest ⊢
    rw [leads_perm (walk.perm _)] at leads
    have top := time_counts.leads_iff.1 ⟨_, leads, rfl⟩
    have counted : best.1 = timeVotes times best.2 :=
      (time_counts.held _ leads.1).2.trans (votes_nanos _)
    refine ⟨best.2, ?_, ?_⟩
    · intro other
      have below := top.2 other
      rw [votes_nanos, votes_nanos] at below
      rcases below.lt_or_eq with fewer | equal
      · exact .inl fewer
      · have voted : 0 < votes id ((times.filterMap id).map OffsetDateTime.unixTimestampNanos) other := by
          rw [votes_nanos, equal, ← votes_nanos]
          exact top.1
        obtain ⟨_, isVoter, rfl⟩ := exists_of_votes_pos voted
        obtain ⟨entry, inCounts, isOther⟩ := time_counts.reached _ isVoter
        rw [id_eq] at isOther
        have total := (time_counts.held entry inCounts).2.trans (votes_nanos _)
        rw [id_eq, isOther] at total
        refine .inr ⟨equal, ?_⟩
        rw [← isOther]
        exact latest entry (walk.mem_enumerate.2 inCounts) (total.trans (equal.trans counted.symm))
    · dsimp only
      rw [← counted]
      split <;> rfl

theorem common_time_leads {nanos : Int} (positive : 1 ≤ quorum)
    (reached : quorum ≤ timeVotes times nanos) (leads : LeadingTime times nanos) :
    commonTime walk times quorum =
      if nanos = 0 then none else OffsetDateTime.fromUnixTimestampNanos nanos := by
  unfold commonTime
  rcases @common_time_top times walk with ⟨top, leading, common⟩ | ⟨unvoted, _⟩
  · have isTop : top = nanos := by
      have forth := leads top
      have back := leading nanos
      omega
    rw [common, isTop]
    exact if_pos reached
  · have zero := unvoted nanos
    omega

theorem common_time_undated (positive : 1 ≤ quorum)
    (undated : ∀ nanos, quorum ≤ timeVotes times nanos → LeadingTime times nanos → nanos = 0) :
    commonTime walk times quorum = none := by
  unfold commonTime
  rcases @common_time_top times walk with ⟨top, leads, common⟩ | ⟨_, common⟩
  · rw [common]
    dsimp only
    split
    · rename_i reached
      exact if_pos (undated top reached leads)
    · rfl
  · rw [common]
    exact if_neg (by omega)

theorem common_time_none (positive : 1 ≤ quorum)
    (short : ∀ nanos, timeVotes times nanos < quorum) : commonTime walk times quorum = none :=
  common_time_undated walk positive fun nanos reached => absurd reached (not_le.2 (short nanos))

theorem common_time_of_quorum {nanos : Int} (positive : 1 ≤ quorum)
    (reached : quorum ≤ timeVotes times nanos)
    (short : ∀ other, other ≠ nanos → timeVotes times other < quorum) :
    commonTime walk times quorum =
      if nanos = 0 then none else OffsetDateTime.fromUnixTimestampNanos nanos := by
  apply common_time_leads walk positive reached
  intro other
  by_cases same : other = nanos
  · rw [same]
    exact .inr ⟨rfl, le_rfl⟩
  · exact .inl ((short other same).trans_le reached)

end Times

section Etags

variable {etags : List (Option String)} {quorum : Nat} (walk : Walk)

def etagVotes (etags : List (Option String)) (etag : String) : Nat :=
  etags.countP fun held => held = some etag

theorem etags_agree (left right : String) : (left == right) = true ↔ id left = id right := by
  simp

theorem votes_etags (etag : String) : votes id (etags.filterMap id) etag = etagVotes etags etag :=
  votes_filter_map id etags etag

theorem common_etag_top (positive : 1 ≤ quorum) :
    (∃ etag, quorum ≤ etagVotes etags etag ∧
        (∀ other, etagVotes etags other ≤ etagVotes etags etag) ∧
        commonEtag walk etags quorum = some etag) ∨
      ((∀ etag, etagVotes etags etag < quorum) ∧ commonEtag walk etags quorum = none) := by
  unfold commonEtag commonEtags
  cases picked : firstMax (walk.enumerate
      (tally (fun left right => left == right) (etags.filterMap id))) with
  | none =>
    refine .inr ⟨?_, if_neg (by simp only; omega)⟩
    intro etag
    rw [first_max_tally_none etags_agree] at picked
    rw [← votes_etags, picked]
    exact positive
  | some best =>
    obtain ⟨_, top, counted⟩ := first_max_tally etags_agree picked
    have most : ∀ other, etagVotes etags other ≤ etagVotes etags best.1 := by
      intro other
      have below := top.2 other
      rw [votes_etags, id_eq, votes_etags] at below
      exact below
    rw [id_eq, votes_etags] at counted
    by_cases reached : quorum ≤ best.2
    · exact .inl ⟨best.1, counted ▸ reached, most, if_pos reached⟩
    · refine .inr ⟨?_, if_neg reached⟩
      intro etag
      have below := most etag
      omega

theorem common_etag_reaches {etag : String} (positive : 1 ≤ quorum)
    (reached : quorum ≤ etagVotes etags etag)
    (most : ∀ other, etagVotes etags other ≤ etagVotes etags etag) :
    ∃ walk, commonEtag walk etags quorum = some etag := by
  have top : TopVoted id (etags.filterMap id) etag := by
    unfold TopVoted
    simp only [votes_etags]
    exact ⟨positive.trans reached, most⟩
  obtain ⟨walk, entry, picked, rfl⟩ := first_max_tally_reaches etags_agree top
  have counted := (first_max_tally etags_agree picked).2.2
  rw [id_eq, votes_etags] at counted
  refine ⟨walk, ?_⟩
  unfold commonEtag commonEtags
  rw [picked]
  exact if_pos (counted ▸ reached)

theorem common_etag_none (positive : 1 ≤ quorum)
    (short : ∀ etag, etagVotes etags etag < quorum) : commonEtag walk etags quorum = none := by
  rcases common_etag_top walk positive with ⟨etag, reached, _⟩ | ⟨_, absent⟩
  · exact absurd reached (not_le.2 (short etag))
  · exact absent

theorem common_etag_of_quorum {etag : String} (positive : 1 ≤ quorum)
    (reached : quorum ≤ etagVotes etags etag)
    (short : ∀ other, other ≠ etag → etagVotes etags other < quorum) :
    commonEtag walk etags quorum = some etag := by
  rcases common_etag_top walk positive with ⟨other, isReached, _, isCommon⟩ | ⟨none, _⟩
  · by_cases same : other = etag
    · rw [isCommon, same]
    · exact absurd isReached (not_le.2 (short other same))
  · exact absurd reached (not_le.2 (none etag))

end Etags

variable {hash : Bytes} {info : FileInfo} {reply : Reply} {defaultParityCount : Int}

section Found

variable {env : SetRuntime} {walks : Walks} {metas : List FileInfo} {agreed : Agreed}
  {quorum : Nat}

/-- How many of the admitted copies have the identity. -/
def identityVotes (env : SetRuntime) (metas : List FileInfo) (agreed : Agreed) (hash : Bytes) :
    Nat :=
  votes id (admittedHashes env metas agreed) hash

/-- The identity has a quorum, and none has more votes. -/
def Wins (env : SetRuntime) (metas : List FileInfo) (agreed : Agreed) (quorum : Nat)
    (hash : Bytes) : Prop :=
  TopVoted id (admittedHashes env metas agreed) hash ∧
    quorum ≤ identityVotes env metas agreed hash

def CopyOf (info copy : FileInfo) : Prop :=
  copy = info ∨ ∃ props, copy = withObjProps info props

theorem quorum_hash_copy {copy : FileInfo} (copied : CopyOf info copy) :
    fileInfoQuorumHash env copy = fileInfoQuorumHash env info := by
  rcases copied with rfl | ⟨props, rfl⟩
  all_goals rfl

theorem hashes_agree (left right : Bytes) : (left == right) = true ↔ id left = id right := by
  simp

theorem found_in_first (walk : Walk) (first : FileInfo) (rest : List FileInfo) (quorum : Nat) :
    ∃ copy, foundIn walk (first :: rest) quorum = .ok copy ∧ CopyOf first copy := by
  unfold foundIn
  dsimp only
  split
  · rename_i entry _
    exact ⟨_, rfl, .inr ⟨entry.1, rfl⟩⟩
  · exact ⟨first, rfl, .inl rfl⟩

theorem exists_admitted (voted : 0 < identityVotes env metas agreed hash) :
    ∃ info ∈ metas, agreed.admits info = true ∧ fileInfoQuorumHash env info = hash := by
  obtain ⟨voter, member, rfl⟩ := exists_of_votes_pos voted
  obtain ⟨info, admitted, rfl⟩ := mem_map.1 member
  obtain ⟨inMetas, admits⟩ := mem_filter.1 admitted
  exact ⟨info, inMetas, admits, rfl⟩

theorem find_of_pick {max : Bytes × Nat} (positive : 1 ≤ quorum)
    (picked : firstMax (walks.identities.enumerate
      (tally (fun left right => left == right) (admittedHashes env metas agreed))) = some max)
    (enough : quorum ≤ max.2) :
    ∃ info ∈ metas, agreed.admits info = true ∧ fileInfoQuorumHash env info = max.1 ∧
      ∃ copy, findFileInfoInQuorum env walks metas agreed quorum = .ok copy ∧
        CopyOf info copy := by
  unfold findFileInfoInQuorum
  rw [if_neg (by omega)]
  dsimp only
  rw [picked]
  dsimp only
  rw [if_neg (by omega)]
  have top := (first_max_tally hashes_agree picked).2.1
  obtain ⟨info, member, admits, isMax⟩ := exists_admitted top.1
  have kept : info ∈ metas.filter fun info =>
      agreed.admits info && fileInfoQuorumHash env info = max.1 := by
    rw [mem_filter, admits, isMax]
    exact ⟨member, by simp⟩
  cases group : metas.filter fun info =>
      agreed.admits info && fileInfoQuorumHash env info = max.1 with
  | nil =>
    rw [group] at kept
    cases kept
  | cons first rest =>
    have inGroup : first ∈ metas.filter fun info =>
        agreed.admits info && fileInfoQuorumHash env info = max.1 := by
      rw [group]
      exact mem_cons_self
    obtain ⟨inMetas, chosen⟩ := mem_filter.1 inGroup
    simp only [Bool.and_eq_true, decide_eq_true_eq] at chosen
    exact ⟨first, inMetas, chosen.1, chosen.2, found_in_first _ first rest quorum⟩

/-- On every walk either an admitted copy with a winning identity is found, or no
identity has a quorum. -/
theorem find_outcome (walks : Walks) (positive : 1 ≤ quorum) :
    (∃ info ∈ metas, agreed.admits info = true ∧
        Wins env metas agreed quorum (fileInfoQuorumHash env info) ∧
        ∃ copy, findFileInfoInQuorum env walks metas agreed quorum = .ok copy ∧
          CopyOf info copy) ∨
      (findFileInfoInQuorum env walks metas agreed quorum = .error .erasureReadQuorum ∧
        ∀ hash, identityVotes env metas agreed hash < quorum) := by
  cases picked : firstMax (walks.identities.enumerate
      (tally (fun left right => left == right) (admittedHashes env metas agreed))) with
  | none =>
    right
    unfold findFileInfoInQuorum
    rw [if_neg (by omega)]
    dsimp only
    rw [picked]
    refine ⟨rfl, ?_⟩
    intro hash
    rw [first_max_tally_none hashes_agree] at picked
    rw [identityVotes, picked]
    exact positive
  | some max =>
    obtain ⟨_, top, counted⟩ := first_max_tally hashes_agree picked
    simp only [id_eq] at top counted
    by_cases short : max.2 < quorum
    · right
      unfold findFileInfoInQuorum
      rw [if_neg (by omega)]
      dsimp only
      rw [picked]
      dsimp only
      rw [if_pos short]
      refine ⟨rfl, ?_⟩
      intro hash
      exact lt_of_le_of_lt (top.2 hash) (counted ▸ short)
    · left
      obtain ⟨info, member, admits, isMax, found⟩ :=
        find_of_pick positive picked (not_lt.1 short)
      refine ⟨info, member, admits, ?_, found⟩
      rw [isMax]
      refine ⟨top, ?_⟩
      rw [identityVotes, ← counted]
      exact not_lt.1 short

theorem find_zero : findFileInfoInQuorum env walks metas agreed 0 = .error .erasureReadQuorum := by
  exact if_pos (by omega)

theorem find_ok {copy : FileInfo}
    (found : findFileInfoInQuorum env walks metas agreed quorum = .ok copy) :
    1 ≤ quorum ∧ Wins env metas agreed quorum (fileInfoQuorumHash env copy) ∧
      ∃ info ∈ metas, agreed.admits info = true ∧ CopyOf info copy := by
  by_cases positive : 1 ≤ quorum
  · rcases find_outcome walks positive with
      ⟨info, member, admits, wins, other, isOther, copied⟩ | missed
    · rw [found] at isOther
      cases isOther
      rw [quorum_hash_copy copied]
      exact ⟨positive, wins, info, member, admits, copied⟩
    · rw [missed.1] at found
      cases found
  · have zero : quorum = 0 := by omega
    rw [zero, find_zero] at found
    cases found

theorem find_reaches (walks : Walks) (positive : 1 ≤ quorum)
    (wins : Wins env metas agreed quorum hash) :
    ∃ (walk : Walk) (copy : FileInfo),
      findFileInfoInQuorum env { walks with identities := walk } metas agreed quorum = .ok copy ∧
        fileInfoQuorumHash env copy = hash := by
  obtain ⟨walk, entry, picked, rfl⟩ := first_max_tally_reaches hashes_agree wins.1
  have total : entry.2 = identityVotes env metas agreed entry.1 :=
    (first_max_tally hashes_agree picked).2.2
  obtain ⟨info, _, _, isEntry, copy, found, copied⟩ :=
    @find_of_pick env { walks with identities := walk } metas agreed quorum entry positive picked
      (total ▸ wins.2)
  use walk, copy, found
  rw [quorum_hash_copy copied]
  exact isEntry

end Found

section Selected

variable {δ : Type} {env : SetRuntime} {walks : Walks} {disks : List (Option δ)}
  {replies : List Reply} {versionId : String} {readQuorum writeQuorum : Nat}

theorem select_by_votes (calm : isDegraded env versionId replies readQuorum writeQuorum ≠ true) :
    selectValidFileinfo env walks disks replies versionId readQuorum writeQuorum =
      let quorum := latestFileinfoSelectionQuorum env versionId replies readQuorum writeQuorum
      let agreed := agreedOn walks replies quorum
      match findFileInfoInQuorum env walks (replies.map Reply.info) agreed quorum with
      | .error err => .error err
      | .ok info => .ok (keepDisks disks replies agreed.keeps, info, quorum) := by
  unfold selectValidFileinfo
  dsimp only
  rw [if_neg calm]
  rfl

end Selected

/-- A quorum of the replies came without an error and has the identity of the
selected information, and so has every reply whose drive stays online. -/
structure Sound {δ : Type} (env : SetRuntime) (replies : List Reply) (online : List (Option δ))
    (info : FileInfo) (quorum : Nat) : Prop where
  backed : quorum ≤ replies.countP (Reply.holds env (fileInfoQuorumHash env info))
  identical : ∀ (index : Nat) (disk : δ), online[index]? = some (some disk) →
    ∃ reply, replies[index]? = some reply ∧
      fileInfoQuorumHash env reply.info = fileInfoQuorumHash env info

section Disks

variable {δ : Type} {disks : List (Option δ)} {replies : List Reply} {keep : Reply → Bool}
  {index : Nat}

theorem keep_disks_online {disk : δ}
    (online : (keepDisks disks replies keep)[index]? = some (some disk)) :
    ∃ reply, replies[index]? = some reply ∧ keep reply = true := by
  unfold keepDisks at online
  rw [getElem?_mapIdx] at online
  obtain ⟨held, _, chosen⟩ := Option.map_eq_some_iff.1 online
  by_cases kept : (replies[index]?).any keep = true
  · exact (Option.any_eq_true _ _).1 kept
  · rw [if_neg kept] at chosen
    cases chosen

theorem keep_disks_all (found : replies[index]? = some reply) (kept : keep reply = true) :
    (keepDisks (List.replicate replies.length (some ())) replies keep)[index]? =
      some (some ()) := by
  have inRange : index < replies.length := (List.getElem?_eq_some_iff.1 found).1
  unfold keepDisks
  rw [getElem?_mapIdx, getElem?_replicate_of_lt inRange, found]
  simp [kept]

end Disks

section Degraded

variable {δ : Type} {env : SetRuntime} {disks : List (Option δ)} {replies : List Reply}
  {online : List (Option δ)} {info : FileInfo}

theorem holds_iff :
    reply.holds env hash = true ↔
      reply.usable = true ∧ fileInfoQuorumHash env reply.info = hash := by
  unfold Reply.holds
  simp

theorem pick_identity_sound {quorum lower : Nat}
    (picked : pickFileinfoIdentity env disks replies hash quorum = .ok (online, info))
    (below : lower ≤ quorum) : Sound env replies online info lower := by
  unfold pickFileinfoIdentity at picked
  split at picked
  · cases picked
  rename_i enough
  split at picked
  · cases picked
  rename_i reply found
  cases picked
  have chosen : fileInfoQuorumHash env reply.info = hash :=
    (holds_iff.1 (find?_some found)).2
  have sameHash : fileInfoQuorumHash env
      { reply.info with isLatest := reply.info.successorModTime.isNone } = hash := chosen
  constructor
  · rw [sameHash]
    exact le_trans below (not_lt.1 enough)
  · intro index disk isOnline
    obtain ⟨other, inReplies, held⟩ := keep_disks_online isOnline
    exact ⟨other, inReplies, (holds_iff.1 held).2.trans sameHash.symm⟩

theorem pick_degraded_sound {readQuorum writeQuorum : Nat} (ordered : readQuorum ≤ writeQuorum)
    (picked : pickDegradedLatestFileinfo env disks replies readQuorum writeQuorum =
      .ok (online, info)) : Sound env replies online info readQuorum := by
  unfold pickDegradedLatestFileinfo at picked
  dsimp only at picked
  split at picked
  · cases picked
  split at picked
  · exact pick_identity_sound picked ordered
  split at picked
  · cases picked
  split at picked
  · exact pick_identity_sound picked le_rfl
  · cases picked

end Degraded

section Votes

variable (env : SetRuntime) (replies : List Reply) (agreed : Agreed) (quorum : Nat)

def replyVotes (hash : Bytes) : Nat := identityVotes env (replies.map Reply.info) agreed hash

/-- A drive stays online although another identity has a quorum, and no fewer votes
than its own. -/
def Disputed : Prop :=
  ∃ reply ∈ replies, agreed.keeps reply = true ∧
    ∃ hash, hash ≠ fileInfoQuorumHash env reply.info ∧ quorum ≤ replyVotes env replies agreed hash ∧
      replyVotes env replies agreed (fileInfoQuorumHash env reply.info) ≤
        replyVotes env replies agreed hash

/-- A winning identity has its quorum only with metadata that came with an error. -/
def Hollow : Prop :=
  ∃ hash, Wins env (replies.map Reply.info) agreed quorum hash ∧
    replies.countP (Reply.holds env hash) < quorum

variable {env replies agreed quorum}

theorem exists_winner (positive : 1 ≤ quorum) {hash : Bytes}
    (reached : quorum ≤ replyVotes env replies agreed hash) :
    ∃ top, Wins env (replies.map Reply.info) agreed quorum top := by
  have voted : admittedHashes env (replies.map Reply.info) agreed ≠ [] := by
    intro empty
    unfold replyVotes identityVotes at reached
    rw [empty] at reached
    simp only [votes, countP_nil] at reached
    omega
  obtain ⟨top, topVoted⟩ := exists_top_voted hashes_agree voted
  exact ⟨top, topVoted, le_trans reached (topVoted.2 hash)⟩

theorem rival_of_disputed (positive : 1 ≤ quorum) (disputed : Disputed env replies agreed quorum) :
    ∃ reply ∈ replies, agreed.keeps reply = true ∧
      ∃ hash, Wins env (replies.map Reply.info) agreed quorum hash ∧
        hash ≠ fileInfoQuorumHash env reply.info := by
  obtain ⟨reply, member, keeps, rival, apart, reached, level⟩ := disputed
  refine ⟨reply, member, keeps, ?_⟩
  obtain ⟨top, topVoted, enough⟩ := exists_winner positive reached
  by_cases isTop : top = fileInfoQuorumHash env reply.info
  · refine ⟨rival, ⟨⟨?_, ?_⟩, reached⟩, apart⟩
    · exact lt_of_lt_of_le positive reached
    · intro other
      rw [isTop] at topVoted
      exact le_trans (topVoted.2 other) level
  · exact ⟨top, ⟨topVoted, enough⟩, isTop⟩

end Votes

section Selected

variable {δ : Type} {env : SetRuntime} {walks : Walks} {disks : List (Option δ)}
  {replies : List Reply} {versionId : String} {readQuorum writeQuorum : Nat}

theorem select_degraded (degraded : isDegraded env versionId replies readQuorum writeQuorum = true)
    {online : List (Option δ)} {quorum : Nat}
    (selected : selectValidFileinfo env walks disks replies versionId readQuorum writeQuorum =
      .ok (online, info, quorum)) : Sound env replies online info quorum := by
  have ordered : readQuorum < writeQuorum := by
    unfold isDegraded at degraded
    simp only [Bool.and_eq_true, decide_eq_true_eq] at degraded
    exact degraded.1.1.1.2
  unfold selectValidFileinfo at selected
  rw [if_pos degraded] at selected
  split at selected
  · cases selected
  rename_i picked isPicked
  cases selected
  exact pick_degraded_sound (le_of_lt ordered) isPicked

end Selected

/-- What the votes of the replies that came without an error come to: a time that a quorum of them
has and most have, the latest of several; without one, or where it is the epoch, an etag that a
quorum has and none is more frequent than; or nothing. -/
inductive Agreement (replies : List Reply) (quorum : Nat) : Agreed → Prop
  | time {time : OffsetDateTime} (dated : time.unixTimestampNanos ≠ 0)
      (reached : quorum ≤ timeVotes (listObjectModtimes replies) time.unixTimestampNanos)
      (leads : LeadingTime (listObjectModtimes replies) time.unixTimestampNanos) :
      Agreement replies quorum ⟨some time, none⟩
  | etag {etag : String}
      (undated : ∀ nanos, quorum ≤ timeVotes (listObjectModtimes replies) nanos →
        LeadingTime (listObjectModtimes replies) nanos → nanos = 0)
      (reached : quorum ≤ etagVotes (listObjectEtags replies) etag)
      (most : ∀ other, etagVotes (listObjectEtags replies) other ≤
        etagVotes (listObjectEtags replies) etag) : Agreement replies quorum ⟨none, some etag⟩
  | neither
      (undated : ∀ nanos, quorum ≤ timeVotes (listObjectModtimes replies) nanos →
        LeadingTime (listObjectModtimes replies) nanos → nanos = 0)
      (unmarked : ∀ etag, etagVotes (listObjectEtags replies) etag < quorum) :
      Agreement replies quorum ⟨none, none⟩

/-- The valid replies with the time or the etag have too few copies of any identity to select
one; or those that keep their drive online have one identity, which a quorum of replies without
an error has and no other has as many copies of. In the last case no drive is online, and the
quorum of each identity is one of replies without an error, of another time. -/
inductive OneIdentity (env : SetRuntime) (replies : List Reply) (agreed : Agreed) (quorum : Nat) : Prop
  | scattered (few : ∀ hash, replyVotes env replies agreed hash < quorum)
  | single (hash : Bytes) (usable : quorum ≤ replies.countP (Reply.holds env hash))
      (kept : ∀ reply ∈ replies, agreed.keeps reply = true → fileInfoQuorumHash env reply.info = hash)
      (fewer : ∀ other, other ≠ hash →
        replyVotes env replies agreed other < replyVotes env replies agreed hash)
  | offline (unkept : ∀ reply ∈ replies, agreed.keeps reply = false)
      (usable : ∀ hash, quorum ≤ replyVotes env replies agreed hash →
        quorum ≤ replies.countP (Reply.holds env hash) ∨
          ∃ other, replyVotes env replies agreed hash < replyVotes env replies agreed other)

/-- Whatever time or etag the replies agree on, those that have it have one identity. -/
def Settled (env : SetRuntime) (replies : List Reply) (quorum : Nat) : Prop :=
  1 ≤ quorum → ∀ agreed, Agreement replies quorum agreed → OneIdentity env replies agreed quorum

section Agreement

variable {env : SetRuntime} {replies : List Reply} {agreed : Agreed} {quorum : Nat}

theorem one_identity_iff (positive : 1 ≤ quorum) :
    OneIdentity env replies agreed quorum ↔
      ¬ Disputed env replies agreed quorum ∧ ¬ Hollow env replies agreed quorum := by
  constructor
  · intro one
    constructor
    · rintro ⟨reply, member, keeps, rival, apart, reached, level⟩
      cases one with
      | scattered few => exact absurd reached (not_le.2 (few rival))
      | single hash usable kept fewer =>
        rw [kept reply member keeps] at apart level
        exact absurd level (not_le.2 (fewer rival apart))
      | offline unkept usable =>
        rw [unkept reply member] at keeps
        cases keeps
    · rintro ⟨winner, wins, short⟩
      cases one with
      | scattered few => exact absurd wins.2 (not_le.2 (few winner))
      | single hash usable kept fewer =>
        by_cases same : winner = hash
        · rw [same] at short
          exact absurd usable (not_le.2 short)
        · exact absurd (wins.1.2 hash) (not_le.2 (fewer winner same))
      | offline unkept usable =>
        rcases usable winner wins.2 with enough | ⟨other, more⟩
        · exact absurd enough (not_le.2 short)
        · exact absurd (wins.1.2 other) (not_le.2 more)
  · rintro ⟨undisputed, solid⟩
    have backed : ∀ hash, Wins env (replies.map Reply.info) agreed quorum hash →
        quorum ≤ replies.countP (Reply.holds env hash) := fun hash wins =>
      not_lt.1 fun short => solid ⟨hash, wins, short⟩
    by_cases few : ∀ hash, replyVotes env replies agreed hash < quorum
    · exact .scattered few
    push Not at few
    obtain ⟨voted, reached⟩ := few
    obtain ⟨top, wins⟩ := exists_winner positive reached
    by_cases online : ∃ reply ∈ replies, agreed.keeps reply = true
    · obtain ⟨online, isOnline, keepsOnline⟩ := online
      have kept : ∀ reply ∈ replies, agreed.keeps reply = true →
          fileInfoQuorumHash env reply.info = top := by
        intro reply member keeps
        by_contra apart
        exact undisputed ⟨reply, member, keeps, top, Ne.symm apart, wins.2, wins.1.2 _⟩
      refine .single top (backed top wins) kept ?_
      intro other apart
      by_contra level
      refine undisputed ⟨online, isOnline, keepsOnline, other, ?_, wins.2.trans (not_lt.1 level), ?_⟩
      · rw [kept online isOnline keepsOnline]
        exact apart
      · rw [kept online isOnline keepsOnline]
        exact not_lt.1 level
    · refine .offline (fun reply member => ?_) ?_
      · rw [← Bool.not_eq_true]
        exact fun keeps => online ⟨reply, member, keeps⟩
      · intro hash enough
        by_cases more : ∃ other, replyVotes env replies agreed hash < replyVotes env replies agreed other
        · exact .inr more
        · push Not at more
          exact .inl (backed hash ⟨⟨lt_of_lt_of_le positive enough, more⟩, enough⟩)

/-- What the code agrees on is what the votes come to; only equally frequent etags leave it a
choice. -/
theorem agreement_iff (positive : 1 ≤ quorum) :
    Agreement replies quorum agreed ↔ ∃ walks, agreedOn walks replies quorum = agreed := by
  constructor
  · rintro (⟨dated, reached, leads⟩ | ⟨undated, reached, most⟩ | ⟨undated, unmarked⟩)
    · refine ⟨.all .sorted, ?_⟩
      unfold agreedOn
      rw [common_time_leads _ positive reached leads, if_neg dated, from_unix_timestamp_nanos_self]
      rfl
    · obtain ⟨walk, isCommon⟩ := common_etag_reaches positive reached most
      refine ⟨.all walk, ?_⟩
      unfold agreedOn
      rw [common_time_undated _ positive undated]
      exact congrArg _ isCommon
    · refine ⟨.all .sorted, ?_⟩
      unfold agreedOn
      rw [common_time_undated _ positive undated]
      exact congrArg _ (common_etag_none _ positive unmarked)
  · rintro ⟨walks, rfl⟩
    by_cases undated : ∀ nanos, quorum ≤ timeVotes (listObjectModtimes replies) nanos →
        LeadingTime (listObjectModtimes replies) nanos → nanos = 0
    · unfold agreedOn
      rw [common_time_undated _ positive undated]
      rcases common_etag_top walks.etags positive with ⟨etag, reached, most, isCommon⟩ | ⟨unmarked, absent⟩
      · rw [show commonEtag walks.etags (listObjectEtags replies) quorum = some etag from isCommon]
        exact .etag undated reached most
      · rw [show commonEtag walks.etags (listObjectEtags replies) quorum = none from absent]
        exact .neither undated unmarked
    · push Not at undated
      obtain ⟨nanos, reached, leads, dated⟩ := undated
      obtain ⟨time, _, isTime⟩ := countP_pos_iff.1 (positive.trans reached)
      obtain ⟨held, rfl, rfl⟩ := Option.map_eq_some_iff.1 (of_decide_eq_true isTime)
      unfold agreedOn
      rw [common_time_leads _ positive reached leads, if_neg dated, from_unix_timestamp_nanos_self]
      exact .time dated reached leads

end Agreement

variable {walks : Walks}

section Settling

variable {env : SetRuntime} {replies : List Reply} {versionId : String}
  {readQuorum writeQuorum quorum : Nat}

section

variable (calm : isDegraded env versionId replies readQuorum writeQuorum ≠ true)
  (isQuorum : latestFileinfoSelectionQuorum env versionId replies readQuorum writeQuorum = quorum)

include calm isQuorum

/-- Some order of the maps selects any winning identity, with the drives that match the
agreed time online. -/
theorem winner_selected (positive : 1 ≤ quorum)
    (wins : Wins env (replies.map Reply.info) (agreedOn walks replies quorum) quorum hash)
    {δ : Type} (disks : List (Option δ)) :
    ∃ (walk : Walk) (info : FileInfo), fileInfoQuorumHash env info = hash ∧
      selectValidFileinfo env { walks with identities := walk } disks replies versionId readQuorum
          writeQuorum =
        .ok (keepDisks disks replies (agreedOn walks replies quorum).keeps, info, quorum) := by
  obtain ⟨walk, info, found, isHash⟩ := find_reaches walks positive wins
  have sameAgreed : agreedOn { walks with identities := walk } replies quorum =
      agreedOn walks replies quorum := rfl
  refine ⟨walk, info, isHash, ?_⟩
  rw [select_by_votes calm, isQuorum]
  dsimp only
  rw [sameAgreed, found]

theorem settled_of_sound
    (sound : ∀ (walks : Walks) (disks online : List (Option Unit)) (info : FileInfo)
        (quorum : Nat), disks.length = replies.length →
      selectValidFileinfo env walks disks replies versionId readQuorum writeQuorum =
          .ok (online, info, quorum) →
        Sound env replies online info quorum) : Settled env replies quorum := by
  intro positive agreed agreement
  obtain ⟨walks, rfl⟩ := (agreement_iff positive).1 agreement
  rw [one_identity_iff positive]
  have selects : ∀ hash,
      Wins env (replies.map Reply.info) (agreedOn walks replies quorum) quorum hash →
        ∃ info, fileInfoQuorumHash env info = hash ∧ Sound env replies
          (keepDisks (List.replicate replies.length (some ())) replies
            (agreedOn walks replies quorum).keeps) info quorum := by
    intro hash wins
    obtain ⟨walk, info, isHash, selected⟩ := winner_selected calm isQuorum positive wins
      (List.replicate replies.length (some ()))
    exact ⟨info, isHash, sound _ _ _ _ _ (length_replicate ..) selected⟩
  constructor
  · intro disputed
    obtain ⟨reply, member, keeps, hash, wins, apart⟩ := rival_of_disputed positive disputed
    obtain ⟨info, isHash, isSound⟩ := selects hash wins
    obtain ⟨index, found⟩ := mem_iff_getElem?.1 member
    obtain ⟨other, isOther, identical⟩ :=
      isSound.identical index () (keep_disks_all found keeps)
    rw [found] at isOther
    cases isOther
    exact apart (isHash.symm.trans identical.symm)
  · intro ⟨hash, wins, short⟩
    obtain ⟨info, isHash, isSound⟩ := selects hash wins
    have backed := isSound.backed
    rw [isHash] at backed
    omega

end

theorem sound_of_settled {δ : Type} {disks online : List (Option δ)} {selectedQuorum : Nat}
    (calm : isDegraded env versionId replies readQuorum writeQuorum ≠ true)
    (settled : Settled env replies
      (latestFileinfoSelectionQuorum env versionId replies readQuorum writeQuorum))
    (selected : selectValidFileinfo env walks disks replies versionId readQuorum writeQuorum =
      .ok (online, info, selectedQuorum)) : Sound env replies online info selectedQuorum := by
  rw [select_by_votes calm] at selected
  dsimp only at selected
  split at selected
  · cases selected
  rename_i found isFound
  cases selected
  obtain ⟨positive, wins, _⟩ := find_ok isFound
  obtain ⟨undisputed, solid⟩ := (one_identity_iff positive).1
    (settled positive _ ((agreement_iff positive).2 ⟨walks, rfl⟩))
  constructor
  · by_contra short
    exact solid ⟨_, wins, not_le.1 short⟩
  · intro index disk isOnline
    obtain ⟨reply, inReplies, keeps⟩ := keep_disks_online isOnline
    refine ⟨reply, inReplies, ?_⟩
    by_contra apart
    apply undisputed
    exact ⟨reply, mem_of_getElem? inReplies, keeps, _, fun same => apart same.symm, wins.2,
      wins.1.2 _⟩

end Settling

def sampleTime : OffsetDateTime := ⟨1700000000000000000, OffsetDateTime.sample_in_range⟩

def writtenInfo (dataDir : Uuid) : FileInfo :=
  { sampleInfo 2 2 with modTime := some sampleTime, dataDir := some dataDir }

/-- Three drives hold one write, the fourth another write of the same instant. -/
def racedReplies : List Reply :=
  [.answered (writtenInfo 1), .answered (writtenInfo 1), .answered (writtenInfo 1),
    .answered (writtenInfo 2)]

def ParitiesTied (defaultParityCount : Int) (parities : List Int) : Prop :=
  ∃ left right, left ≠ right ∧ Elected parities.length defaultParityCount parities left ∧
    Elected parities.length defaultParityCount parities right

theorem elected_perm {left right : List Int} (rearranged : left.Perm right) {parity : Int} :
    Elected left.length defaultParityCount left parity ↔
      Elected right.length defaultParityCount right parity := by
  unfold Elected Supported
  simp only [votes_perm id rearranged, rearranged.length_eq]

theorem common_parity_untied {left right : List Int} (rearranged : left.Perm right)
    (untied : ¬ ParitiesTied defaultParityCount right) (walk walk' : Walk) :
    commonParity walk left defaultParityCount = commonParity walk' right defaultParityCount := by
  by_cases undefined : commonParity walk left defaultParityCount = -1
  · rw [undefined, eq_comm, common_parity_undefined]
    rw [common_parity_undefined] at undefined
    intro parity supported
    apply undefined parity
    unfold Supported at supported ⊢
    rw [votes_perm id rearranged, rearranged.length_eq]
    exact supported
  · have elected := (elected_perm rearranged).1 (common_parity_elected rfl undefined)
    apply (common_parity_of_unique elected ?_).symm
    intro other otherElected
    by_contra apart
    exact untied ⟨_, _, apart, otherElected, elected⟩

theorem common_parity_tied {parities : List Int} (tied : ParitiesTied defaultParityCount parities) :
    ∃ walk walk' : Walk, commonParity walk parities defaultParityCount ≠
      commonParity walk' parities defaultParityCount := by
  obtain ⟨left, right, apart, electedLeft, electedRight⟩ := tied
  obtain ⟨walk, returned⟩ := common_parity_reaches electedLeft
  obtain ⟨walk', returned'⟩ := common_parity_reaches electedRight
  use walk, walk'
  rw [returned, returned']
  exact apart

section Identities

variable (env : SetRuntime) (agreed : Agreed) (quorum : Nat) {metas : List FileInfo}

def IdentitiesTied (metas : List FileInfo) : Prop :=
  1 ≤ quorum ∧ ∃ left right, left ≠ right ∧ Wins env metas agreed quorum left ∧
    Wins env metas agreed quorum right

def foundIdentity (walks : Walks) (metas : List FileInfo) : Except DiskError Bytes :=
  (findFileInfoInQuorum env walks metas agreed quorum).map (fileInfoQuorumHash env)

variable {env agreed quorum}

theorem wins_perm {left right : List FileInfo} (rearranged : left.Perm right) :
    Wins env left agreed quorum hash ↔ Wins env right agreed quorum hash := by
  have hashes : (admittedHashes env left agreed).Perm (admittedHashes env right agreed) :=
    (rearranged.filter _).map _
  unfold Wins identityVotes
  rw [top_voted_perm hashes, votes_perm id hashes]

theorem found_identity_winner (found : foundIdentity env agreed quorum walks metas = .ok hash) :
    Wins env metas agreed quorum hash := by
  unfold foundIdentity at found
  cases result : findFileInfoInQuorum env walks metas agreed quorum with
  | error err =>
    rw [result] at found
    cases found
  | ok info =>
    rw [result] at found
    cases found
    exact (find_ok result).2.1

theorem found_identity_error (positive : 1 ≤ quorum)
    {err : DiskError} (missed : foundIdentity env agreed quorum walks metas = .error err) :
    err = .erasureReadQuorum ∧ ∀ hash, ¬ Wins env metas agreed quorum hash := by
  unfold foundIdentity at missed
  rcases find_outcome walks positive with ⟨_, _, _, _, copy, found, _⟩ | ⟨isError, short⟩
  · rw [found] at missed
    cases missed
  · rw [isError] at missed
    cases missed
    exact ⟨rfl, fun hash wins => absurd wins.2 (not_le.2 (short hash))⟩

theorem found_identity_untied {left right : List FileInfo} (rearranged : left.Perm right)
    (untied : ¬ IdentitiesTied env agreed quorum right) (walks walks' : Walks) :
    foundIdentity env agreed quorum walks left = foundIdentity env agreed quorum walks' right := by
  by_cases positive : 1 ≤ quorum
  · cases found : foundIdentity env agreed quorum walks left with
    | error err =>
      obtain ⟨isErr, vacant⟩ := found_identity_error positive found
      cases found' : foundIdentity env agreed quorum walks' right with
      | error err' =>
        obtain ⟨isErr', _⟩ := found_identity_error positive found'
        rw [isErr, isErr']
      | ok hash => exact absurd ((wins_perm rearranged).2 (found_identity_winner found')) (vacant hash)
    | ok hash =>
      have wins := (wins_perm rearranged).1 (found_identity_winner found)
      cases found' : foundIdentity env agreed quorum walks' right with
      | error err' => exact absurd wins ((found_identity_error positive found').2 hash)
      | ok hash' =>
        by_contra apart
        apply untied
        refine ⟨positive, hash, hash', ?_, wins, found_identity_winner found'⟩
        intro same
        exact apart (by rw [same])
  · have zero : quorum = 0 := by omega
    unfold foundIdentity
    rw [zero, find_zero, find_zero]

theorem found_identity_tied (tied : IdentitiesTied env agreed quorum metas) :
    ∃ walks walks' : Walks, foundIdentity env agreed quorum walks metas ≠
      foundIdentity env agreed quorum walks' metas := by
  obtain ⟨positive, left, right, apart, winsLeft, winsRight⟩ := tied
  obtain ⟨walk, info, found, isLeft⟩ := find_reaches (.all .sorted) positive winsLeft
  obtain ⟨walk', info', found', isRight⟩ := find_reaches (.all .sorted) positive winsRight
  use { Walks.all .sorted with identities := walk }, { Walks.all .sorted with identities := walk' }
  unfold foundIdentity
  rw [found, found']
  simp only [Except.map, isLeft, isRight, ne_eq, Except.ok.injEq]
  exact apart

end Identities

theorem found_identity_walk (env : SetRuntime) (walk : Walk) (walks : Walks)
    (metas : List FileInfo) (agreed : Agreed) (quorum : Nat) :
    foundIdentity { env with walk } agreed quorum walks metas =
      foundIdentity env agreed quorum walks metas := by
  have digests : fileInfoQuorumHash { env with walk } = fileInfoQuorumHash env :=
    funext fun info => quorum_hash_walk env walk info
  unfold foundIdentity findFileInfoInQuorum admittedHashes
  rw [digests]

/-- What the three reductions return on the replies. -/
structure Reductions where
  err : Option DiskError
  parity : Int
  identity : Except DiskError Bytes

def reductions (env : SetRuntime) (walks : Walks) (replies : List Reply)
    (defaultParityCount : Nat) (agreed : Agreed) (quorum : Nat) : Reductions where
  err := reducedIdentity walks.errors (errsOf replies) objectOpIgnoredErrs (replies.length / 2)
    .erasureReadQuorum
  parity := commonParity walks.parities (listObjectParities replies) defaultParityCount
  identity := foundIdentity env agreed quorum walks (replies.map Reply.info)

theorem parities_perm {left right : List Reply} (rearranged : left.Perm right) :
    (listObjectParities left).Perm (listObjectParities right) := by
  unfold listObjectParities
  rw [rearranged.length_eq]
  exact rearranged.map _

/-- The reductions of a read return the same whatever the order of the drives and of the maps,
unless two errors, two parities or two identities tie. Only ties between winners count. -/
theorem quorum_reductions_order_free_iff (env : SetRuntime) (replies : List Reply)
    (defaultParityCount : Nat) (agreed : Agreed) (quorum : Nat) :
    (∀ rearranged, rearranged.Perm replies → ∀ (walk walk' : Walk) (walks walks' : Walks),
      reductions { env with walk } walks rearranged defaultParityCount agreed quorum =
        reductions { env with walk := walk' } walks' replies defaultParityCount agreed quorum) ↔
      ¬ ErrsTied (errsOf replies) objectOpIgnoredErrs (replies.length / 2) ∧
        ¬ ParitiesTied defaultParityCount (listObjectParities replies) ∧
        ¬ IdentitiesTied env agreed quorum (replies.map Reply.info) := by
  constructor
  · intro orderFree
    have sameReductions : ∀ walks walks' : Walks,
        reductions env walks replies defaultParityCount agreed quorum =
          reductions env walks' replies defaultParityCount agreed quorum :=
      orderFree replies (.refl _) env.walk env.walk
    refine ⟨?_, ?_, ?_⟩
    · intro tied
      obtain ⟨walk, walk', apart⟩ := reduced_tied .erasureReadQuorum tied
      exact apart (congrArg Reductions.err (sameReductions (.all walk) (.all walk')))
    · intro tied
      obtain ⟨walk, walk', apart⟩ := common_parity_tied tied
      exact apart (congrArg Reductions.parity (sameReductions (.all walk) (.all walk')))
    · intro tied
      obtain ⟨walks, walks', apart⟩ := found_identity_tied tied
      exact apart (congrArg Reductions.identity (sameReductions walks walks'))
  · intro ⟨errsUntied, paritiesUntied, identitiesUntied⟩ rearranged moved walk walk' walks walks'
    unfold reductions
    rw [Reductions.mk.injEq, found_identity_walk env walk, found_identity_walk env walk',
      moved.length_eq]
    refine ⟨?_, ?_, ?_⟩
    · exact (reduced_untied (moved.symm.map _) _ _ _ errsUntied _ _).symm
    · exact common_parity_untied (parities_perm moved) paritiesUntied _ _
    · exact found_identity_untied (moved.map _) identitiesUntied _ _

/-- Two drives say the object is absent, two that they timed out. -/
def splitReplies : List Reply :=
  [.failed .fileNotFound, .failed .fileNotFound, .failed .timeout, .failed .timeout]

theorem split_errors_depend_on_order :
    ¬ ∀ (env : SetRuntime) (replies : List Reply) (defaultParityCount : Nat) (agreed : Agreed)
        (quorum : Nat) (rearranged : List Reply), rearranged.Perm replies →
      ∀ (walk walk' : Walk) (walks walks' : Walks),
        reductions { env with walk } walks rearranged defaultParityCount agreed quorum =
          reductions { env with walk := walk' } walks' replies defaultParityCount agreed quorum := by
  intro claim
  have same := claim .sample splitReplies 2 ⟨none, none⟩ 2 splitReplies (.refl _) .sorted .sorted
    (.all .sorted) (.all (rotated 1))
  have apart : reducedIdentity .sorted (errsOf splitReplies) objectOpIgnoredErrs 2
        .erasureReadQuorum ≠
      reducedIdentity (rotated 1) (errsOf splitReplies) objectOpIgnoredErrs 2
        .erasureReadQuorum := by
    decide
  exact apart (congrArg Reductions.err same)

end Rustfs.Ecstore
