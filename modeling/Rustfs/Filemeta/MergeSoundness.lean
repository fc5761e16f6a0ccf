import Rustfs.Filemeta.VersionMerge
import Rustfs.Library.Lists

/-!
# Soundness of the strict version merge

With a majority quorum, an emitted entry was the top of a quorum of streams, so it
stands in front of everything those streams still hold. Any later winner shares such a
stream with it: that one stream orders the two and separates their version ids. That
every committed version is emitted is not stated, and would not be true.
-/

namespace Rustfs.Filemeta

open List Library.Lists Library.Quorum FileMetaVersionHeader

variable {strict : Bool} {vote : FileMetaVersionHeader × Nat}

section

variable {stream : List FileMetaShallowVersion}

section

/-- A stream as a healthy disk holds it: newest first and every version id once. -/
structure StrictStream (stream : List FileMetaShallowVersion) : Prop where
  sorted : stream.Pairwise fun a b => a.header.sortsBefore b.header = true
  ids : stream.Pairwise fun a b => a.header.versionId ≠ b.header.versionId

instance (stream : List FileMetaShallowVersion) : Decidable (StrictStream stream) :=
  decidable_of_iff
    ((stream.Pairwise fun a b => a.header.sortsBefore b.header = true) ∧
      stream.Pairwise fun a b => a.header.versionId ≠ b.header.versionId)
    ⟨fun both => ⟨both.1, both.2⟩, fun strictly => ⟨strictly.sorted, strictly.ids⟩⟩

theorem StrictStream.sublist {inner outer : List FileMetaShallowVersion}
    (strictly : StrictStream outer) (sub : inner.Sublist outer) : StrictStream inner :=
  ⟨strictly.sorted.sublist sub, strictly.ids.sublist sub⟩

def carries (header : FileMetaVersionHeader) (stream : List FileMetaShallowVersion) : Bool :=
  stream.any fun ver => ver.header = header

def holders (header : FileMetaVersionHeader) (streams : List (List FileMetaShallowVersion)) : Nat :=
  streams.countP (carries header)

def topIs (header : FileMetaVersionHeader) (stream : List FileMetaShallowVersion) : Bool :=
  stream.head?.any fun top => top.header = header

def topHolders (header : FileMetaVersionHeader)
    (streams : List (List FileMetaShallowVersion)) : Nat :=
  streams.countP (topIs header)

theorem count_tops_eq (header : FileMetaVersionHeader)
    (streams : List (List FileMetaShallowVersion)) :
    (topsOf streams).countP (fun top => top.header = header) = topHolders header streams := by
  unfold topHolders
  induction streams with
  | nil => rfl
  | cons stream rest ih =>
    cases stream with
    | nil => simp [ih, topIs]
    | cons top tail => simp [countP_cons, ih, topIs]

theorem scan_tops_count (tops seen rest : List FileMetaShallowVersion) (first : Bool)
    (scan result : Scan) (split : tops = seen ++ rest) (counted : scan.latestCount ≤
      seen.countP fun top => top.header = scan.latest.header)
    (settled : scanTops true first scan rest = .settled result) :
    result.latestCount ≤ tops.countP fun top => top.header = result.latest.header := by
  induction rest generalizing seen first scan with
  | nil =>
    simp only [scanTops, ScanOutcome.settled.injEq] at settled
    subst settled
    simpa [split] using counted
  | cons ver rest ih =>
    have resplit : tops = (seen ++ [ver]) ++ rest := by simp [split]
    rw [scanTops] at settled
    split at settled
    case isTrue same =>
      exact ih (seen ++ [ver]) _ _ resplit (by simpa [same] using counted) settled
    split at settled
    · refine ih (seen ++ [ver]) _ _ resplit ?_ settled
      simp
    split at settled
    · rename_i notStrict
      simp at notStrict
    split at settled
    · cases settled
    · refine ih (seen ++ [ver]) _ _ resplit ?_ settled
      rw [countP_append]
      omega

theorem seat_carries (strict : Bool) (key : FileMetaVersionHeader)
    (tops : List FileMetaShallowVersion) (latest : FileMetaShallowVersion)
    (carried : ∃ top ∈ tops, voteKey strict top.header = key) :
    seat strict tops key latest ∈ tops ∧
      voteKey strict (seat strict tops key latest).header = key := by
  unfold seat
  induction tops generalizing latest with
  | nil => simp at carried
  | cons top rest ih =>
    rw [foldl_cons]
    by_cases later : ∃ other ∈ rest, voteKey strict other.header = key
    · obtain ⟨member, keyed⟩ := ih _ later
      exact ⟨mem_cons_of_mem _ member, keyed⟩
    · obtain ⟨other, member, keyed⟩ := carried
      have here : voteKey strict top.header = key := by
        rcases mem_cons.1 member with rfl | inRest
        · exact keyed
        · exact absurd ⟨other, inRest, keyed⟩ later
      rw [if_pos here]
      rcases seat_mem strict key rest top with kept | ⟨inRest, keyed⟩
      · unfold seat at kept
        rw [kept]
        exact ⟨mem_cons_self, here⟩
      · exact absurd ⟨_, inRest, keyed⟩ later

/-- Every entry of a vote map is a key some top carries, with the number of tops
that carry it. -/
theorem mem_count_votes {id : Option Uuid} {tops : List FileMetaShallowVersion}
    (member : vote ∈ countVotes (ballotKeys strict id tops)) :
    (∃ top ∈ tops, top.header.versionId = id ∧ voteKey strict top.header = vote.1) ∧
      vote.2 = (ballotKeys strict id tops).count vote.1 := by
  simp only [countVotes, mem_map, mem_dedup] at member
  obtain ⟨key, inKeys, rfl⟩ := member
  refine ⟨?_, rfl⟩
  simp only [ballotKeys, mem_map, mem_filter, decide_eq_true_eq] at inKeys
  obtain ⟨top, ⟨inTops, sameId⟩, keyed⟩ := inKeys
  exact ⟨top, inTops, sameId, keyed⟩

theorem ballot_count_le (id : Option Uuid) (tops : List FileMetaShallowVersion)
    (key : FileMetaVersionHeader) :
    (ballotKeys true id tops).count key ≤ tops.countP fun top => top.header = key := by
  rw [ballotKeys, List.count, countP_map, countP_filter]
  apply countP_mono_left
  intro top _ voted
  simpa [voteKey] using (Bool.and_eq_true_iff.1 voted).1

theorem elect_count (tops : List FileMetaShallowVersion) (votes : Votes) (scan : Scan)
    (cast : ∀ vote ∈ votes, (∃ top ∈ tops, voteKey true top.header = vote.1) ∧
      vote.2 ≤ tops.countP fun top => top.header = vote.1) :
    (elect true tops votes scan).latestCount ≤
      tops.countP fun top => top.header = (elect true tops votes scan).latest.header := by
  have step : ∀ (votes : Votes) (scan : Scan),
      (∀ vote ∈ votes, (∃ top ∈ tops, voteKey true top.header = vote.1) ∧
        vote.2 ≤ tops.countP fun top => top.header = vote.1) →
      scan.latestCount ≤ (tops.countP fun top => top.header = scan.latest.header) →
        (votes.foldl (electStep true tops) scan).latestCount ≤
          tops.countP fun top =>
            top.header = (votes.foldl (electStep true tops) scan).latest.header := by
    intro votes
    induction votes with
    | nil => exact fun _ _ counted => counted
    | cons vote rest ih =>
      intro scan cast counted
      apply ih _ fun other member => cast other (mem_cons_of_mem _ member)
      unfold electStep
      split
      · exact counted
      split
      · exact counted
      · obtain ⟨carried, bound⟩ := cast vote mem_cons_self
        have keyed := (seat_carries true vote.1 tops scan.latest carried).2
        simp only [voteKey, if_true] at keyed
        rw [keyed]
        exact bound
  exact step votes _ cast (Nat.zero_le _)

theorem pick_latest_count (enumerate : Votes → Votes)
    (permutes : ∀ votes, (enumerate votes).Perm votes) (tops : List FileMetaShallowVersion) :
    (pickLatest true enumerate tops).latestCount ≤
      tops.countP fun top => top.header = (pickLatest true enumerate tops).latest.header := by
  unfold pickLatest
  cases outcome : scanTops true true ⟨.default, 0⟩ tops with
  | settled scan =>
    exact scan_tops_count tops [] tops true ⟨.default, 0⟩ scan rfl (Nat.zero_le _) outcome
  | ballot scan id =>
    apply elect_count
    intro vote member
    obtain ⟨⟨top, inTops, -, keyed⟩, count⟩ :=
      mem_count_votes ((permutes _).mem_iff.1 member)
    exact ⟨⟨top, inTops, keyed⟩, by rw [count]; exact ballot_count_le id tops vote.1⟩

theorem round_winner_count (enumerate : Votes → Votes)
    (permutes : ∀ votes, (enumerate votes).Perm votes)
    (versions : List (List FileMetaShallowVersion)) :
    (roundWinner true enumerate versions).latestCount ≤
      topHolders (roundWinner true enumerate versions).latest.header versions := by
  rw [← count_tops_eq]
  simp only [roundWinner, collect_tops_eq]
  split
  case isTrue consistent =>
    have agreed := consistent_tops_agree versions consistent
    rw [countP_eq_length.2]
    simpa using agreed
  · exact pick_latest_count enumerate permutes _

/-- Everything the stream still holds comes after `ver` and has another id. -/
def behind (ver : FileMetaShallowVersion) (stream : List FileMetaShallowVersion) : Bool :=
  stream.all fun other =>
    ver.header.sortsBefore other.header && other.header.versionId ≠ ver.header.versionId

structure MergedSound (quorum : Nat) (streams : List (List FileMetaShallowVersion))
    (state : MergeState) : Prop where
  within : List.Forall₂ List.Sublist state.versions streams
  cleared : ∀ ver ∈ state.merged, quorum ≤ state.versions.countP (behind ver)
  held : ∀ ver ∈ state.merged, quorum ≤ holders ver.header streams
  strictly : StrictStream state.merged

theorem carries_of_top {header : FileMetaVersionHeader}
    (top : topIs header stream = true) : carries header stream = true := by
  cases stream with
  | nil => simp [topIs] at top
  | cons first rest =>
    simp only [topIs, head?_cons, Option.any_some, decide_eq_true_eq] at top
    simp [carries, top]

variable {versions streams : List (List FileMetaShallowVersion)}

theorem top_holders_le (header : FileMetaVersionHeader)
    (within : List.Forall₂ List.Sublist versions streams) :
    topHolders header versions ≤ holders header streams := by
  apply count_le_of_forall₂ within
  intro inner outer sub top
  have carried := carries_of_top top
  simp only [carries, any_eq_true] at *
  obtain ⟨ver, member, same⟩ := carried
  exact ⟨ver, sub.mem member, same⟩

theorem behind_of_sublist {ver : FileMetaShallowVersion}
    {inner outer : List FileMetaShallowVersion} (sub : inner.Sublist outer)
    (cleared : behind ver outer = true) : behind ver inner = true := by
  simp only [behind, all_eq_true] at *
  exact fun other member => cleared other (sub.mem member)

theorem behind_after_removal {latest : FileMetaShallowVersion}
    (merged : List FileMetaShallowVersion)
    (strictly : StrictStream stream) (top : topIs latest.header stream = true) :
    behind latest (removeSelected latest merged stream) = true := by
  cases stream with
  | nil => simp [topIs] at top
  | cons first rest =>
    simp only [topIs, head?_cons, Option.any_some, decide_eq_true_eq] at top
    rw [remove_selected_top merged rest top]
    have sorted := (pairwise_cons.1 strictly.sorted).1
    have ids := (pairwise_cons.1 strictly.ids).1
    simp only [behind, all_eq_true, Bool.and_eq_true, decide_eq_true_eq, ← top]
    exact fun other member => ⟨sorted other member, (ids other member).symm⟩

theorem strict_of_within (within : List.Forall₂ List.Sublist versions streams)
    (strictly : ∀ stream ∈ streams, StrictStream stream) :
    ∀ stream ∈ versions, StrictStream stream := by
  intro inner member
  obtain ⟨outer, inStreams, sub⟩ := exists_related_of_mem within member
  exact (strictly outer inStreams).sublist sub

theorem within_after_removal (latest : FileMetaShallowVersion)
    (merged : List FileMetaShallowVersion) (within : List.Forall₂ List.Sublist versions streams) :
    List.Forall₂ List.Sublist (versions.map (removeSelected latest merged)) streams := by
  rw [forall₂_map_left_iff]
  exact within.imp fun _ _ sub => (remove_selected_sublist latest merged _).trans sub

theorem cleared_after_removal (latest : FileMetaShallowVersion)
    (merged : List FileMetaShallowVersion) (versions : List (List FileMetaShallowVersion))
    (ver : FileMetaShallowVersion) :
    versions.countP (behind ver) ≤
      (versions.map (removeSelected latest merged)).countP (behind ver) := by
  rw [countP_map]
  apply countP_mono_left
  intro stream _ cleared
  exact behind_of_sublist (remove_selected_sublist latest merged stream) cleared

/-- An entry topping a quorum of streams comes after everything already emitted:
a quorum of streams is cleared of the emitted entry, and the two quorums meet. -/
theorem emitted_before_winner {quorum : Nat} {streams : List (List FileMetaShallowVersion)}
    {state : MergeState} (sound : MergedSound quorum streams state)
    (majority : streams.length < 2 * quorum) {latest : FileMetaShallowVersion}
    (topped : quorum ≤ topHolders latest.header state.versions)
    {ver : FileMetaShallowVersion} (emitted : ver ∈ state.merged) :
    ver.header.sortsBefore latest.header = true ∧
      ver.header.versionId ≠ latest.header.versionId := by
  have length : state.versions.length < 2 * quorum := by
    rw [sound.within.length_eq]
    exact majority
  obtain ⟨stream, -, cleared, top⟩ := exists_mem_of_two_quorums state.versions (behind ver)
    (topIs latest.header) quorum length (sound.cleared ver emitted) topped
  cases stream with
  | nil => simp [topIs] at top
  | cons first rest =>
    simp only [topIs, head?_cons, Option.any_some, decide_eq_true_eq] at top
    simp only [behind, all_cons, Bool.and_eq_true, decide_eq_true_eq, top] at cleared
    exact ⟨cleared.1.1, cleared.1.2.symm⟩

theorem merged_sound_step (config : MergeConfig) {streams : List (List FileMetaShallowVersion)}
    {state : MergeState} (enumerate : Votes → Votes)
    (permutes : ∀ votes, (enumerate votes).Perm votes)
    (majority : streams.length < 2 * config.quorum)
    (strictly : ∀ stream ∈ streams, StrictStream stream)
    (required : ∀ version, config.requiredQuorum version = config.quorum)
    (sound : MergedSound config.quorum streams state) :
    MergedSound config.quorum streams
      (roundState config (roundWinner true enumerate state.versions) state) := by
  let winner := roundWinner true enumerate state.versions
  let merged := roundMerged config winner state.merged
  have within := within_after_removal winner.latest merged sound.within
  by_cases emitted : config.requiredQuorum winner.latest ≤ winner.latestCount
  · have mergedEq : merged = state.merged ++ [winner.latest] := if_pos emitted
    have topped : config.quorum ≤ topHolders winner.latest.header state.versions := by
      rw [required] at emitted
      exact emitted.trans (round_winner_count enumerate permutes state.versions)
    have before := fun ver member =>
      emitted_before_winner sound majority topped (show ver ∈ state.merged from member)
    refine ⟨within, ?_, ?_, ?_⟩
    · intro ver member
      change ver ∈ merged at member
      rw [mergedEq, mem_append, mem_singleton] at member
      rcases member with earlier | rfl
      · exact (sound.cleared ver earlier).trans (cleared_after_removal _ _ _ ver)
      · refine topped.trans ?_
        change _ ≤ List.countP _ (List.map _ _)
        rw [countP_map]
        apply countP_mono_left
        intro stream inVersions top
        exact behind_after_removal merged
          (strict_of_within sound.within strictly stream inVersions) top
    · intro ver member
      change ver ∈ merged at member
      rw [mergedEq, mem_append, mem_singleton] at member
      rcases member with earlier | rfl
      · exact sound.held ver earlier
      · exact topped.trans (top_holders_le _ sound.within)
    · change StrictStream merged
      rw [mergedEq]
      constructor
      · exact pairwise_append.2 ⟨sound.strictly.sorted, pairwise_singleton _ _, by
          intro ver member last inLast
          rw [mem_singleton.1 inLast]
          exact (before ver member).1⟩
      · exact pairwise_append.2 ⟨sound.strictly.ids, pairwise_singleton _ _, by
          intro ver member last inLast
          rw [mem_singleton.1 inLast]
          exact (before ver member).2⟩
  · have mergedEq : merged = state.merged := if_neg emitted
    refine ⟨within, ?_, ?_, ?_⟩
    · intro ver member
      change ver ∈ merged at member
      rw [mergedEq] at member
      exact (sound.cleared ver member).trans (cleared_after_removal _ _ _ ver)
    · intro ver member
      change ver ∈ merged at member
      rw [mergedEq] at member
      exact sound.held ver member
    · change StrictStream merged
      rw [mergedEq]
      exact sound.strictly

theorem merged_sound_start (quorum : Nat) (streams : List (List FileMetaShallowVersion)) :
    MergedSound quorum streams ⟨streams, [], 0⟩ where
  within := forall₂_same.2 fun _ _ => List.Sublist.refl _
  cleared := by simp
  held := by simp
  strictly := ⟨List.Pairwise.nil, List.Pairwise.nil⟩

theorem merge_config_strict (quorum requestedVersions : Nat) (positive : 0 < quorum) :
    mergeConfig (fun _ => none) quorum true requestedVersions false 0 =
      ⟨quorum, true, requestedVersions, fun _ => quorum⟩ := by
  have nonzero : quorum ≠ 0 := positive.ne'
  simp [mergeConfig, nonzero]

/-- The strict merge with a majority quorum returns a strictly ordered list with each
version id once, every header of it held by a quorum of the streams; and the merge loop
ends on every input whatsoever. Nothing is said of the versions it leaves out. -/
theorem merge_file_meta_versions_sound :
    (∀ (payloadQuorum : Bytes → Option Nat) (order : VoteOrder) (quorum : Nat) (strict : Bool)
        (requestedVersions : Nat) (enforceWriteQuorum : Bool) (writeQuorumSlack : Nat)
        (streams : List (List FileMetaShallowVersion)),
      ∃ merged, mergeFileMetaVersionsInner payloadQuorum order quorum strict requestedVersions
        enforceWriteQuorum writeQuorumSlack streams = some merged) ∧
    ∀ (order : VoteOrder) (quorum : Nat) (streams : List (List FileMetaShallowVersion)),
      streams.length < 2 * quorum → (∀ stream ∈ streams, StrictStream stream) →
        ∃ merged, mergeFileMetaVersions order quorum true 0 streams = some merged ∧
          merged.Pairwise (fun a b => a.header.sortsBefore b.header = true) ∧
          (merged.map fun ver => ver.header.versionId).Nodup ∧
          ∀ ver ∈ merged, quorum ≤ holders ver.header streams := by
  refine ⟨merge_terminates, ?_⟩
  intro order quorum streams majority strictly
  obtain ⟨merged, result⟩ := merge_terminates (fun _ => none) order quorum true 0 false 0 streams
  refine ⟨merged, result, ?_⟩
  suffices sound : StrictStream merged ∧ ∀ ver ∈ merged, quorum ≤ holders ver.header streams from
    ⟨sound.1.sorted, pairwise_map.2 sound.1.ids, sound.2⟩
  have positive : 0 < quorum := by omega
  simp only [mergeFileMetaVersionsInner, merge_config_strict quorum 0 positive] at result
  split at result
  · cases result
    exact ⟨⟨List.Pairwise.nil, List.Pairwise.nil⟩, by simp⟩
  split at result
  case isTrue _ single =>
    obtain ⟨stream, rfl⟩ := length_eq_one_iff.1 single
    cases result
    have one : quorum ≤ 1 := by simp_all
    refine ⟨strictly _ (by simp), ?_⟩
    intro ver member
    have carried : carries ver.header stream = true := by
      simp only [carries, any_eq_true]
      exact ⟨ver, member, by simp⟩
    simpa [holders, carried] using one
  case isFalse =>
    let config : MergeConfig := ⟨quorum, true, 0, fun _ => quorum⟩
    obtain ⟨_, final, sound, -, rfl⟩ := merge_loop_invariant config order rfl
      (fun _ state => MergedSound quorum streams state)
      (fun round state sound _ => merged_sound_step config _ (order.perm round) majority strictly
        (fun _ => rfl) sound) _ _ _ merged (merged_sound_start quorum streams) result
    exact ⟨sound.strictly, sound.held⟩

/-- The object entry of the source's merge tests (`union_version`), with the id,
the second of its mod time and its signature left open. -/
def unionVersion (id : Uuid) (modUnix : Int) (signature : BitVec 32) : FileMetaShallowVersion where
  header :=
    { versionId := some id
      modTime := OffsetDateTime.fromUnixTimestampNanos (modUnix * 1000000000)
      signature := signature
      versionType := .object
      flags := 0
      ecN := 4
      ecM := 2 }
  metaBytes := []

/-- Three disks, one of which missed the newest version. -/
def laggingStreams : List (List FileMetaShallowVersion) :=
  [[unionVersion 0xA 1705312300 0x11223344, unionVersion 0xB 1705312200 0x11223344],
    [unionVersion 0xA 1705312300 0x11223344, unionVersion 0xB 1705312200 0x11223344],
    [unionVersion 0xB 1705312200 0x11223344]]

theorem merge_file_meta_versions_sound_lagging :
    ∃ merged, mergeFileMetaVersions .fixed 2 true 0 laggingStreams = some merged ∧
      merged = [unionVersion 0xA 1705312300 0x11223344, unionVersion 0xB 1705312200 0x11223344] ∧
      merged.Pairwise (fun a b => a.header.sortsBefore b.header = true) ∧
      (merged.map fun ver => ver.header.versionId).Nodup ∧
      ∀ ver ∈ merged, 2 ≤ holders ver.header laggingStreams := by
  have returns : mergeFileMetaVersions .fixed 2 true 0 laggingStreams =
      some [unionVersion 0xA 1705312300 0x11223344, unionVersion 0xB 1705312200 0x11223344] := by
    decide
  obtain ⟨merged, result, sound⟩ :=
    merge_file_meta_versions_sound.2 .fixed 2 laggingStreams (by decide) (by decide)
  rw [returns] at result
  exact ⟨merged, returns.trans result, (Option.some.inj result).symm, sound⟩

-- The converse fails: the third disk's rewrite of the version sorts first by its signature,
-- wins the scan without a vote, and the removal takes out the header that two disks hold.
example : mergeFileMetaVersions .fixed 2 true 0
    [[unionVersion 0xA 1705312300 0x11223344], [unionVersion 0xA 1705312300 0x11223344],
      [unionVersion 0xA 1705312300 0x55667788]] = some [] := by
  decide

end

/-- The states in which the loop starts a round. `start` is the state the loop is
entered with; the function returns before the loop for fewer than two streams or
fewer streams than the quorum. -/
inductive MergeReaches (config : MergeConfig) (order : VoteOrder)
    (streams : List (List FileMetaShallowVersion)) : Nat → MergeState → Prop
  | start (entered : 2 ≤ streams.length ∧ config.quorum ≤ streams.length) :
      MergeReaches config order streams 0 ⟨streams, [], 0⟩
  | next {round : Nat} {state next : MergeState}
      (reached : MergeReaches config order streams round state)
      (step : mergeRound config (order.enumerate round) state = .next next) :
      MergeReaches config order streams (round + 1) next

variable {streams : List (List FileMetaShallowVersion)} {config : MergeConfig} {state : MergeState}
  {order : VoteOrder} {round : Nat}

theorem merge_reaches_result
    (positive : 0 < config.quorum) (reached : MergeReaches config order streams round state) :
    ∃ fuel, totalEntries state.versions < fuel ∧
      mergeLoop config order (totalEntries streams + 1) 0 ⟨streams, [], 0⟩ =
        mergeLoop config order fuel round state := by
  induction reached with
  | start => exact ⟨_, Nat.lt_succ_self _, rfl⟩
  | next reached step ih =>
    obtain ⟨fuel, enough, same⟩ := ih
    cases fuel with
    | zero => omega
    | succ fuel =>
      have shrinks := merge_round_decreases positive step
      refine ⟨fuel, by omega, ?_⟩
      rw [same, mergeLoop, step]

theorem merge_reaches_entered (reached : MergeReaches config order streams round state) :
    2 ≤ streams.length ∧ config.quorum ≤ streams.length := by
  induction reached with
  | start entered => exact entered
  | next _ _ ih => exact ih

end

section Ballot

variable {strict : Bool} {tops : List FileMetaShallowVersion} {key : FileMetaVersionHeader}
  {votes : Votes}

/-- The entry a key stands for once it is elected. -/
def seated (strict : Bool) (tops : List FileMetaShallowVersion) (key : FileMetaVersionHeader) :
    FileMetaShallowVersion :=
  seat strict tops key .default

theorem seat_eq_seated (latest : FileMetaShallowVersion)
    (carried : ∃ top ∈ tops, voteKey strict top.header = key) :
    seat strict tops key latest = seated strict tops key := by
  unfold seated seat
  induction tops generalizing latest with
  | nil => simp at carried
  | cons top rest ih =>
    rw [foldl_cons, foldl_cons]
    by_cases here : voteKey strict top.header = key
    · rw [if_pos here, if_pos here]
    · rw [if_neg here, if_neg here]
      apply ih
      obtain ⟨other, member, keyed⟩ := carried
      rcases mem_cons.1 member with rfl | inRest
      · exact absurd keyed here
      · exact ⟨other, inRest, keyed⟩

theorem seated_key (carried : ∃ top ∈ tops, voteKey strict top.header = key) :
    voteKey strict (seated strict tops key).header = key :=
  (seat_carries strict key tops .default carried).2

@[simp] theorem vote_key_mod_time (strict : Bool) (header : FileMetaVersionHeader) :
    (voteKey strict header).modTime = header.modTime := by
  unfold voteKey
  split <;> rfl

@[simp] theorem vote_key_version_id (strict : Bool) (header : FileMetaVersionHeader) :
    (voteKey strict header).versionId = header.versionId := by
  unfold voteKey
  split <;> rfl

/-- The votes of one ballot: distinct keys, each carried by some top, each with
at least one vote. -/
structure Ballot (strict : Bool) (tops : List FileMetaShallowVersion) (votes : Votes) : Prop where
  carried : ∀ vote ∈ votes, ∃ top ∈ tops, voteKey strict top.header = vote.1
  positive : ∀ vote ∈ votes, 0 < vote.2
  distinct : (votes.map Prod.fst).Nodup

theorem count_votes_ballot (id : Option Uuid) :
    Ballot strict tops (countVotes (ballotKeys strict id tops)) where
  carried vote member := by
    obtain ⟨⟨top, inTops, -, keyed⟩, -⟩ := mem_count_votes member
    exact ⟨top, inTops, keyed⟩
  positive vote member := by
    simp only [countVotes, mem_map, mem_dedup] at member
    obtain ⟨key, inKeys, rfl⟩ := member
    exact count_pos_iff.2 inKeys
  distinct := by
    rw [countVotes, map_map]
    exact (map_id _).symm ▸ nodup_dedup _

theorem Ballot.perm {left right : Votes} (ballot : Ballot strict tops left)
    (permuted : right.Perm left) : Ballot strict tops right where
  carried vote member := ballot.carried vote (permuted.mem_iff.1 member)
  positive vote member := ballot.positive vote (permuted.mem_iff.1 member)
  distinct := (permuted.map Prod.fst).nodup_iff.2 ballot.distinct

def Leads (votes : Votes) (vote : FileMetaVersionHeader × Nat) : Prop :=
  vote ∈ votes ∧ ∀ other ∈ votes, other.2 ≤ vote.2

/-- The tie rule of the vote: once `key` is seated, a `rival` with as many votes
leaves it seated. -/
def holdsAgainst (strict : Bool) (tops : List FileMetaShallowVersion)
    (key rival : FileMetaVersionHeader) : Bool :=
  (seated strict tops key).header.sortsBefore rival

/-- One leading key wins the tie rule against every other one, whichever of the
two is seated first. -/
def VoteDecided (strict : Bool) (tops : List FileMetaShallowVersion) (votes : Votes) : Prop :=
  ∃ winner, Leads votes winner ∧ ∀ rival, Leads votes rival → rival ≠ winner →
    holdsAgainst strict tops winner.1 rival.1 = true ∧
      holdsAgainst strict tops rival.1 winner.1 = false

/-- What the tie rule grants a key over a rival: the rival is not newer, and in a strict
vote, where a key is its header, it does not sort before it. -/
def Outranks (strict : Bool) (key rival : FileMetaVersionHeader) : Prop :=
  optionLt key.modTime rival.modTime = false ∧ (strict = true → rival.sortsBefore key = false)

theorem outranks_self (strict : Bool) (key : FileMetaVersionHeader) : Outranks strict key key :=
  ⟨(time_not_lt _ _).2 le_rfl, fun _ => sorts_before_irrefl key⟩

/-- The scan after walking the votes in `walked`: it seats a leading key that outranks every
other leading key. -/
def Seats (strict : Bool) (tops : List FileMetaShallowVersion) (walked : Votes)
    (scan : Scan) : Prop :=
  ∃ key, Leads walked (key, scan.latestCount) ∧ scan.latest = seated strict tops key ∧
    ∀ rival, Leads walked rival → Outranks strict key rival.1

theorem leads_append_iff {walked : Votes} {other : FileMetaVersionHeader × Nat} :
    Leads (walked ++ [vote]) other ↔
      (other ∈ walked ∨ other = vote) ∧ (∀ earlier ∈ walked, earlier.2 ≤ other.2) ∧
        vote.2 ≤ other.2 := by
  simp [Leads, or_imp, forall_and]

theorem elect_step_seats {walked : Votes} {scan : Scan}
    (carried : ∃ top ∈ tops, voteKey strict top.header = vote.1) (positive : 0 < vote.2)
    (before : walked = [] ∧ scan.latestCount = 0 ∨ Seats strict tops walked scan)
    (walkedCarried : ∀ earlier ∈ walked, ∃ top ∈ tops, voteKey strict top.header = earlier.1) :
    Seats strict tops (walked ++ [vote]) (electStep strict tops scan vote) := by
  unfold electStep
  rcases before with ⟨rfl, zero⟩ | ⟨key, leads, latest, newest⟩
  · rw [if_neg (by omega), if_neg (by simp [zero, positive.ne'])]
    refine ⟨vote.1, leads_append_iff.2 ⟨.inr rfl, by simp, le_rfl⟩,
      seat_eq_seated scan.latest carried, ?_⟩
    intro rival leadsRival
    have same : rival = vote := by simpa using (leads_append_iff.1 leadsRival).1
    rw [same]
    exact outranks_self strict vote.1
  · have heldKey : strict = true → scan.latest.header = key := by
      rintro rfl
      rw [latest]
      exact seated_key (walkedCarried _ leads.1)
    have heldTime : scan.latest.header.modTime = key.modTime := by
      rw [latest, ← vote_key_mod_time strict, seated_key (walkedCarried _ leads.1)]
    split
    case isTrue fewer =>
      refine ⟨key, leads_append_iff.2 ⟨.inl leads.1, leads.2, fewer.le⟩, latest, ?_⟩
      intro rival leadsRival
      obtain ⟨member, bound, ge⟩ := leads_append_iff.1 leadsRival
      rcases member with earlier | rfl
      · exact newest rival ⟨earlier, bound⟩
      · exact absurd (bound _ leads.1) (Nat.not_le.2 fewer)
    split
    case isTrue tied =>
      rw [Bool.and_eq_true, decide_eq_true_eq] at tied
      obtain ⟨equal, before⟩ := tied
      refine ⟨key, leads_append_iff.2 ⟨.inl leads.1, leads.2, equal.le⟩, latest, ?_⟩
      intro rival leadsRival
      obtain ⟨member, bound, ge⟩ := leads_append_iff.1 leadsRival
      rcases member with earlier | rfl
      · exact newest rival ⟨earlier, bound⟩
      · refine ⟨by rw [← heldTime]; exact mod_time_le_of_sorts_before before, ?_⟩
        intro strictly
        rw [← heldKey strictly]
        exact sorts_before_asymm before
    case isFalse notFewer notTied =>
      have atLeast : scan.latestCount ≤ vote.2 := Nat.le_of_not_lt notFewer
      refine ⟨vote.1, leads_append_iff.2
        ⟨.inr rfl, fun earlier member => (leads.2 earlier member).trans atLeast, le_rfl⟩,
        seat_eq_seated scan.latest carried, ?_⟩
      intro rival leadsRival
      obtain ⟨member, bound, ge⟩ := leads_append_iff.1 leadsRival
      rcases member with earlier | rfl
      · have equal : vote.2 = scan.latestCount := by
          have rivalLe := leads.2 rival earlier
          omega
        have notBefore : scan.latest.header.sortsBefore vote.1 = false := by
          simpa [equal] using notTied
        have heldLe := mod_time_le_of_not_sorts_before notBefore
        obtain ⟨rivalLe, rivalAfter⟩ := newest rival ⟨earlier, bound⟩
        rw [heldTime] at heldLe
        constructor
        · rw [time_not_lt] at *
          exact rivalLe.trans heldLe
        · intro strictly
          rw [heldKey strictly] at notBefore
          have after := rivalAfter strictly
          rw [not_sorts_before_iff] at *
          exact notBefore.trans after
      · exact outranks_self strict rival.1

theorem elect_seats (ballot : Ballot strict tops votes) (nonempty : votes ≠ [])
    (scan : Scan) : Seats strict tops votes (elect strict tops votes scan) := by
  have run : ∀ (rest walked : Votes) (scan : Scan), votes = walked ++ rest →
      (walked = [] ∧ scan.latestCount = 0 ∧ rest ≠ [] ∨ Seats strict tops walked scan) →
        Seats strict tops votes (rest.foldl (electStep strict tops) scan) := by
    intro rest
    induction rest with
    | nil =>
      intro walked scan split before
      rcases before with ⟨-, -, empty⟩ | seats
      · exact absurd rfl empty
      · rw [split, append_nil]
        exact seats
    | cons vote rest ih =>
      intro walked scan split before
      have member : vote ∈ votes := by simp [split]
      apply ih (walked ++ [vote]) _ (by simp [split])
      refine .inr (elect_step_seats (ballot.carried vote member) (ballot.positive vote member)
        ?_ fun earlier inWalked => ballot.carried earlier (by simp [split, inWalked]))
      rcases before with ⟨empty, zero, -⟩ | seats
      · exact .inl ⟨empty, zero⟩
      · exact .inr seats
  exact run votes [] _ rfl (.inl ⟨rfl, rfl, nonempty⟩)

theorem elect_decided (ballot : Ballot strict tops votes) (scan : Scan)
    {winner : FileMetaVersionHeader × Nat} (leads : Leads votes winner)
    (beats : ∀ rival, Leads votes rival → rival ≠ winner →
      holdsAgainst strict tops winner.1 rival.1 = true ∧
        holdsAgainst strict tops rival.1 winner.1 = false) :
    elect strict tops votes scan = ⟨seated strict tops winner.1, winner.2⟩ := by
  have run : ∀ (rest walked : Votes) (scan : Scan), votes = walked ++ rest →
      ((winner ∈ walked ∧ scan = ⟨seated strict tops winner.1, winner.2⟩) ∨
        (winner ∈ rest ∧ (scan.latestCount < winner.2 ∨
          ∃ rival, Leads votes rival ∧ rival ≠ winner ∧
            scan = ⟨seated strict tops rival.1, rival.2⟩))) →
        rest.foldl (electStep strict tops) scan = ⟨seated strict tops winner.1, winner.2⟩ := by
    intro rest
    induction rest with
    | nil =>
      intro walked scan _ before
      rcases before with ⟨-, seatedWinner⟩ | ⟨inNil, -⟩
      · exact seatedWinner
      · cases inNil
    | cons vote rest ih =>
      intro walked scan split before
      have member : vote ∈ votes := by simp [split]
      have atMost : vote.2 ≤ winner.2 := leads.2 vote member
      apply ih (walked ++ [vote]) _ (by simp [split])
      rcases before with ⟨earlier, rfl⟩ | ⟨later, notYet⟩
      · refine .inl ⟨by simp [earlier], ?_⟩
        unfold electStep
        split
        · rfl
        rename_i notFewer
        have equal : vote.2 = winner.2 := by simp only at notFewer; omega
        have tied : Leads votes vote := ⟨member, fun other inVotes => by
          rw [equal]; exact leads.2 other inVotes⟩
        have other : vote ≠ winner := by
          rintro rfl
          have keys : (List.map Prod.fst (walked ++ vote :: rest)).Nodup :=
            split ▸ ballot.distinct
          rw [map_append, nodup_append] at keys
          exact keys.2.2 _ (mem_map_of_mem earlier) _
            (mem_map_of_mem mem_cons_self) rfl
        rw [if_pos]
        simp only [Bool.and_eq_true, decide_eq_true_eq]
        exact ⟨equal, (beats vote tied other).1⟩
      · rcases mem_cons.1 later with rfl | inRest
        · refine .inl ⟨by simp, ?_⟩
          unfold electStep
          have carried := ballot.carried winner member
          rcases notYet with fewer | ⟨rival, tied, differs, rfl⟩
          · rw [if_neg (by omega), if_neg (by simp; omega), seat_eq_seated _ carried]
          · have equal : winner.2 = rival.2 :=
              Nat.le_antisymm (tied.2 winner member) (leads.2 rival tied.1)
            have notHeld := (beats rival tied differs).2
            rw [holdsAgainst] at notHeld
            rw [if_neg (by simp [equal]), if_neg (by simp [notHeld]), seat_eq_seated _ carried]
        · refine .inr ⟨inRest, ?_⟩
          unfold electStep
          split
          · exact notYet
          split
          · exact notYet
          by_cases equal : vote.2 = winner.2
          · refine .inr ⟨vote, ⟨member, fun other inVotes => by
              rw [equal]; exact leads.2 other inVotes⟩, ?_, ?_⟩
            · rintro rfl
              have keys : (List.map Prod.fst (walked ++ vote :: rest)).Nodup :=
                split ▸ ballot.distinct
              rw [map_append, nodup_append, map_cons, nodup_cons] at keys
              exact keys.2.1.1 (mem_map_of_mem inRest)
            · rw [seat_eq_seated _ (ballot.carried vote member)]
          · exact .inl (show vote.2 < winner.2 by omega)
  exact run votes [] _ rfl (.inr ⟨leads.1, .inl (ballot.positive winner leads.1)⟩)

theorem elect_passed {rest : Votes} {scan : Scan}
    (carried : ∀ vote ∈ rest, ∃ top ∈ tops, voteKey strict top.header = vote.1)
    (absent : ∀ vote ∈ rest, vote.1 ≠ key) (passed : voteKey strict scan.latest.header ≠ key) :
    voteKey strict (rest.foldl (electStep strict tops) scan).latest.header ≠ key := by
  induction rest generalizing scan with
  | nil => exact passed
  | cons vote rest ih =>
    apply ih (fun other member => carried other (mem_cons_of_mem _ member))
      fun other member => absent other (mem_cons_of_mem _ member)
    unfold electStep
    split
    · exact passed
    split
    · exact passed
    · have here := carried vote mem_cons_self
      simp only [seat_eq_seated scan.latest here, seated_key here]
      exact absent vote mem_cons_self

theorem elect_first {rest : Votes} (scan : Scan)
    (carried : ∃ top ∈ tops, voteKey strict top.header = vote.1) (positive : 0 < vote.2) :
    elect strict tops (vote :: rest) scan =
      rest.foldl (electStep strict tops) ⟨seated strict tops vote.1, vote.2⟩ := by
  rw [elect, foldl_cons, electStep, if_neg (Nat.not_lt_zero _),
    if_neg (by simp [positive.ne']), seat_eq_seated _ carried]

/-- If every walk elects the same key, that key wins the tie rule both ways
against every other leading key: the walk that starts with the two of them would
otherwise drop it. -/
theorem decided_of_elect_constant (ballot : Ballot strict tops votes)
    (nonempty : votes ≠ []) (scan : Scan) (constant : ∀ walk : Votes, walk.Perm votes →
      voteKey strict (elect strict tops walk scan).latest.header =
        voteKey strict (elect strict tops votes scan).latest.header) :
    VoteDecided strict tops votes := by
  obtain ⟨key, leads, latest, -⟩ := elect_seats ballot nonempty scan
  let winner : FileMetaVersionHeader × Nat := (key, (elect strict tops votes scan).latestCount)
  have elected : voteKey strict (elect strict tops votes scan).latest.header = key := by
    rw [latest, seated_key (ballot.carried winner leads.1)]
  refine ⟨winner, leads, ?_⟩
  intro rival tied differs
  have equal : rival.2 = winner.2 :=
    Nat.le_antisymm (leads.2 rival tied.1) (tied.2 winner leads.1)
  have rivalKey : rival.1 ≠ key := fun same => differs (Prod.ext same equal)
  -- Either of the two may be walked first, with the same votes after them.
  obtain ⟨rest, front⟩ : ∃ rest, (winner :: rival :: rest).Perm votes := by
    have inErased : rival ∈ votes.erase winner := (mem_erase_of_ne differs).2 tied.1
    exact ⟨(votes.erase winner).erase rival,
      ((perm_cons_erase leads.1).trans ((perm_cons_erase inErased).cons _)).symm⟩
  have frontBallot := ballot.perm front
  have restCarried := fun vote (member : vote ∈ rest) => frontBallot.carried vote
    (mem_cons_of_mem _ (mem_cons_of_mem _ member))
  have restAbsent : ∀ vote ∈ rest, vote.1 ≠ key := by
    intro vote member same
    have keys := frontBallot.distinct
    simp only [map_cons, nodup_cons, mem_cons, mem_map] at keys
    exact keys.1 (.inr ⟨vote, member, same⟩)
  have winnerCarried := ballot.carried winner leads.1
  have rivalCarried := ballot.carried rival tied.1
  constructor
  · by_contra dropped
    have walked := constant _ front
    rw [elected, elect_first scan winnerCarried (ballot.positive winner leads.1),
      foldl_cons] at walked
    refine elect_passed restCarried restAbsent ?_ walked
    rw [holdsAgainst] at dropped
    rw [electStep, if_neg (by simp [equal]), if_neg (by simp [dropped]),
      seat_eq_seated _ rivalCarried, seated_key rivalCarried]
    exact rivalKey
  · by_contra held
    rw [Bool.not_eq_false, holdsAgainst] at held
    have walked := constant _ ((List.Perm.swap winner rival rest).trans front)
    rw [elected, elect_first scan rivalCarried (ballot.positive rival tied.1), foldl_cons] at walked
    refine elect_passed restCarried restAbsent ?_ walked
    rw [electStep, if_neg (by simp [equal]), if_pos (by simp [equal, held]),
      seated_key rivalCarried]
    exact rivalKey

end Ballot

/-- A round whose vote emits is settled by one leading key. A round whose tops agree
holds no vote, and a vote without a quorum emits nothing; neither has to be decided. -/
def VoteSettled (config : MergeConfig) (state : MergeState) : Prop :=
  (collectTops state.versions).consistent = false → ∀ held id,
    scanTops config.strict true ⟨.default, 0⟩ (topsOf state.versions) = .ballot held id →
      (∃ vote ∈ countVotes (ballotKeys config.strict id (topsOf state.versions)),
        config.quorum ≤ vote.2) →
        VoteDecided config.strict (topsOf state.versions)
          (countVotes (ballotKeys config.strict id (topsOf state.versions)))

theorem removable_congr {left right : FileMetaShallowVersion}
    (time : left.header.modTime = right.header.modTime)
    (id : left.header.versionId = right.header.versionId)
    (merged : List FileMetaShallowVersion) : removable left merged = removable right merged := by
  have dropHeader : ∀ latest ver : FileMetaShallowVersion, removable latest merged ver =
      (optionLt latest.header.modTime ver.header.modTime ||
        latest.header.versionId = ver.header.versionId ||
        merged.any fun mergedV => ver.header.versionId = mergedV.header.versionId) := by
    intro latest ver
    by_cases same : ver.header = latest.header
    all_goals simp [removable, same]
  funext ver
  rw [dropHeader, dropHeader, time, id]

variable {tops : List FileMetaShallowVersion} {id : Option Uuid} {config : MergeConfig}
  {state : MergeState} {streams : List (List FileMetaShallowVersion)} {round : Nat}

theorem count_votes_nonempty (strict : Bool) (carried : ∃ top ∈ tops, top.header.versionId = id) :
    countVotes (ballotKeys strict id tops) ≠ [] := by
  obtain ⟨top, member, same⟩ := carried
  have inKeys : voteKey strict top.header ∈ ballotKeys strict id tops :=
    mem_map.2 ⟨top, mem_filter.2 ⟨member, by simp [same]⟩, rfl⟩
  intro empty
  rw [countVotes, map_eq_nil_iff] at empty
  have inDedup := mem_dedup.2 inKeys
  rw [empty] at inDedup
  cases inDedup

theorem ballot_id_carried {held : Scan} (broke : scanTops strict true ⟨.default, 0⟩ tops = .ballot held id) :
    ∃ top ∈ tops, top.header.versionId = id := by
  have nonempty : tops ≠ [] := by
    rintro rfl
    simp [scanTops] at broke
  obtain ⟨top, member, same⟩ := scan_tops_latest strict tops tops true ⟨.default, 0⟩
    (fun _ member => member) (fun _ => nonempty) (by simp)
  rw [broke] at same
  refine ⟨top, member, ?_⟩
  rw [same, scan_tops_ballot strict tops true _ held id broke]
  rfl

theorem leads_of_perm {left right : Votes} (permuted : left.Perm right) (leads : Leads left vote) :
    Leads right vote :=
  ⟨permuted.mem_iff.1 leads.1, fun other member => leads.2 other (permuted.mem_iff.2 member)⟩

theorem leads_count_eq {votes : Votes} {left right : FileMetaVersionHeader × Nat}
    (leftLeads : Leads votes left) (rightLeads : Leads votes right) : left.2 = right.2 :=
  Nat.le_antisymm (rightLeads.2 left leftLeads.1) (leftLeads.2 right rightLeads.1)

/-- Two walks of one ballot agree on the count, the mod time and the version id
of what they elect. -/
theorem elect_walks_agree (carried : ∃ top ∈ tops, top.header.versionId = id) (held : Scan)
    {left right : Votes} (leftPerm : left.Perm (countVotes (ballotKeys strict id tops)))
    (rightPerm : right.Perm (countVotes (ballotKeys strict id tops))) :
    (elect strict tops left held).latestCount = (elect strict tops right held).latestCount ∧
      (elect strict tops left held).latest.header.modTime =
        (elect strict tops right held).latest.header.modTime ∧
      (elect strict tops left held).latest.header.versionId =
        (elect strict tops right held).latest.header.versionId := by
  have ballot := (count_votes_ballot id : Ballot strict tops _)
  have nonempty := count_votes_nonempty strict carried
  have leftNonempty : left ≠ [] := fun empty =>
    nonempty (by rw [empty] at leftPerm; exact leftPerm.nil_eq.symm)
  have rightNonempty : right ≠ [] := fun empty =>
    nonempty (by rw [empty] at rightPerm; exact rightPerm.nil_eq.symm)
  obtain ⟨leftKey, leftLeads, leftSeat, leftNewest⟩ :=
    elect_seats (ballot.perm leftPerm) leftNonempty held
  obtain ⟨rightKey, rightLeads, rightSeat, rightNewest⟩ :=
    elect_seats (ballot.perm rightPerm) rightNonempty held
  have across := leftPerm.trans rightPerm.symm
  have seatedHeader : ∀ key count, (key, count) ∈ countVotes (ballotKeys strict id tops) →
      (seated strict tops key).header.modTime = key.modTime ∧
        (seated strict tops key).header.versionId = id := by
    intro key count member
    obtain ⟨⟨top, inTops, sameId, keyed⟩, -⟩ := mem_count_votes member
    have isKey := seated_key ⟨top, inTops, keyed⟩
    constructor
    · rw [← vote_key_mod_time strict, isKey]
    · rw [← vote_key_version_id strict, isKey, ← keyed, vote_key_version_id, sameId]
  have leftHeader := seatedHeader leftKey _ (leftPerm.mem_iff.1 leftLeads.1)
  have rightHeader := seatedHeader rightKey _ (rightPerm.mem_iff.1 rightLeads.1)
  refine ⟨leads_count_eq (leads_of_perm across leftLeads) rightLeads, ?_, ?_⟩
  · rw [leftSeat, rightSeat, leftHeader.1, rightHeader.1]
    apply time_key_injective
    apply le_antisymm
    · exact (time_not_lt _ _).1
        (rightNewest _ (leads_of_perm across leftLeads)).1
    · exact (time_not_lt _ _).1
        (leftNewest _ (leads_of_perm across.symm rightLeads)).1
  · rw [leftSeat, rightSeat, leftHeader.2, rightHeader.2]

theorem round_state_not_emitted {winner : Scan}
    (required : ∀ version, config.requiredQuorum version = config.quorum)
    (below : ¬ config.quorum ≤ winner.latestCount) :
    roundState config winner state =
      ⟨state.versions.map (removeSelected winner.latest state.merged), state.merged,
        state.nVersions⟩ := by
  simp [roundState, roundMerged, roundNVersions, required, below]

theorem round_state_settled (required : ∀ version, config.requiredQuorum version = config.quorum)
    (settled : VoteSettled config state) (left right : Votes → Votes)
    (leftPerm : ∀ votes, (left votes).Perm votes) (rightPerm : ∀ votes, (right votes).Perm votes) :
    roundState config (roundWinner config.strict left state.versions) state =
      roundState config (roundWinner config.strict right state.versions) state := by
  simp only [roundWinner, collect_tops_eq]
  cases consistent : (collectTops state.versions).consistent with
  | true => rfl
  | false =>
    simp only [Bool.false_eq_true, if_false, pickLatest]
    cases outcome : scanTops config.strict true ⟨.default, 0⟩ (topsOf state.versions) with
    | settled scan => rfl
    | ballot held id =>
      simp only
      have carried := ballot_id_carried outcome
      let votes := countVotes (ballotKeys config.strict id (topsOf state.versions))
      have agree := elect_walks_agree carried held (leftPerm votes) (rightPerm votes)
      by_cases emits : ∃ vote ∈ votes, config.quorum ≤ vote.2
      · obtain ⟨winner, leads, beats⟩ := settled consistent held id outcome emits
        have seatWinner : ∀ walk : Votes, walk.Perm votes →
            elect config.strict (topsOf state.versions) walk held =
              ⟨seated config.strict (topsOf state.versions) winner.1, winner.2⟩ := by
          intro walk permuted
          exact elect_decided ((count_votes_ballot id).perm permuted) held
            (leads_of_perm permuted.symm leads)
            fun rival tied differs => beats rival (leads_of_perm permuted tied) differs
        rw [seatWinner _ (leftPerm votes), seatWinner _ (rightPerm votes)]
      · have below : ∀ walk : Votes, walk.Perm votes →
            ¬ config.quorum ≤
              (elect config.strict (topsOf state.versions) walk held).latestCount := by
          intro walk permuted enough
          have walkNonempty : walk ≠ [] := fun empty =>
            count_votes_nonempty config.strict carried
              (by rw [empty] at permuted; exact permuted.nil_eq.symm)
          obtain ⟨key, leads, -, -⟩ :=
            elect_seats ((count_votes_ballot id).perm permuted) walkNonempty held
          exact emits ⟨_, permuted.mem_iff.1 leads.1, enough⟩
        change roundState config (elect _ _ (left votes) held) state =
          roundState config (elect _ _ (right votes) held) state
        rw [round_state_not_emitted required (below _ (leftPerm votes)),
          round_state_not_emitted required (below _ (rightPerm votes))]
        unfold removeSelected
        rw [removable_congr agree.2.1 agree.2.2]

theorem merge_loop_settled (required : ∀ version, config.requiredQuorum version = config.quorum)
    (settled : ∀ round state, MergeReaches config .fixed streams round state →
      VoteSettled config state) (order : VoteOrder) (fuel round : Nat) (state : MergeState)
    (reached : MergeReaches config .fixed streams round state) :
    mergeLoop config order fuel round state = mergeLoop config .fixed fuel round state := by
  induction fuel generalizing round state with
  | zero => rfl
  | succ fuel ih =>
    have sameRound : mergeRound config (order.enumerate round) state =
        mergeRound config (VoteOrder.fixed.enumerate round) state := by
      simp only [mergeRound, round_state_settled required (settled round state reached)
        (order.enumerate round) (VoteOrder.fixed.enumerate round) (order.perm round)
        (VoteOrder.fixed.perm round)]
    rw [mergeLoop, mergeLoop, sameRound]
    cases step : mergeRound config (VoteOrder.fixed.enumerate round) state with
    | finished merged => rfl
    | next next => exact ih (round + 1) next (.next reached step)

theorem merge_loop_extends {order : VoteOrder} {fuel : Nat} {result : List FileMetaShallowVersion}
    (done : mergeLoop config order fuel round state = some result) : state.merged <+: result := by
  induction fuel generalizing round state with
  | zero => simp [mergeLoop] at done
  | succ fuel ih =>
    have grows : state.merged <+: (roundState config
        (roundWinner config.strict (order.enumerate round) state.versions) state).merged := by
      change _ <+: roundMerged _ _ _
      unfold roundMerged
      split
      · exact prefix_append _ _
      · exact prefix_rfl
    rw [mergeLoop] at done
    rcases merge_round_cases config (order.enumerate round) state with
      ⟨_, stop⟩ | ⟨_, _, stop⟩ | ⟨_, goes⟩
    · rw [stop, Option.some.injEq] at done
      exact done ▸ prefix_rfl
    · rw [stop, Option.some.injEq] at done
      rw [← done]
      exact grows.trans (prefix_append _ _)
    · rw [goes] at done
      exact grows.trans (ih done)

theorem merge_loop_emits {order : VoteOrder} {fuel : Nat} {result : List FileMetaShallowVersion}
    (enough : config.quorum ≤ (topsOf state.versions).length)
    (done : mergeLoop config order (fuel + 1) round state = some result) :
    roundMerged config (roundWinner config.strict (order.enumerate round) state.versions)
      state.merged <+: result := by
  rw [mergeLoop] at done
  rcases merge_round_cases config (order.enumerate round) state with
    ⟨few, _⟩ | ⟨_, _, stop⟩ | ⟨_, goes⟩
  · omega
  · rw [stop, Option.some.injEq] at done
    rw [← done]
    exact prefix_append _ _
  · rw [goes] at done
    exact merge_loop_extends done

/-- The fixed order with another walk of one ballot in one round. -/
def VoteOrder.rewalk (turn : Nat) (votes walk : Votes) (permuted : walk.Perm votes) :
    VoteOrder where
  enumerate round ballot := if round = turn ∧ ballot = votes then walk else ballot
  perm round ballot := by
    split
    case isTrue here =>
      rw [here.2]
      exact permuted
    case isFalse => exact .refl _

theorem merge_reaches_before {left right : VoteOrder}
    (same : ∀ earlier < round, left.enumerate earlier = right.enumerate earlier)
    (reached : MergeReaches config left streams round state) :
    MergeReaches config right streams round state := by
  induction reached with
  | start entered => exact .start entered
  | next reached step ih =>
    rename_i round _ _
    refine .next (ih fun earlier less => same earlier (less.trans (Nat.lt_succ_self _))) ?_
    rw [← same round (Nat.lt_succ_self _)]
    exact step

/-- Configuration of `merge_file_meta_versions(quorum, strict, requested_versions, _)`. -/
def plainConfig (quorum : Nat) (strict : Bool) (requestedVersions : Nat) : MergeConfig :=
  mergeConfig (fun _ => none) quorum strict requestedVersions false 0

theorem merge_entered_cases (quorum : Nat) (strict : Bool) (requestedVersions : Nat)
    (streams : List (List FileMetaShallowVersion)) :
    (¬ (2 ≤ streams.length ∧
        (plainConfig quorum strict requestedVersions).quorum ≤ streams.length) ∧
      ∃ merged, ∀ order, mergeFileMetaVersions order quorum strict requestedVersions streams =
        some merged) ∨
    (2 ≤ streams.length ∧
        (plainConfig quorum strict requestedVersions).quorum ≤ streams.length) ∧
      ∀ order, mergeFileMetaVersions order quorum strict requestedVersions streams =
        mergeLoop (plainConfig quorum strict requestedVersions) order (totalEntries streams + 1) 0
          ⟨streams, [], 0⟩ := by
  let config := plainConfig quorum strict requestedVersions
  have positive : 0 < config.quorum := merge_config_quorum_pos ..
  have unfolded : ∀ order, mergeFileMetaVersions order quorum strict requestedVersions streams =
      if (streams.length < config.quorum || streams.isEmpty) = true then some []
      else if streams.length = 1 then some (streams.headD [])
      else mergeLoop config order (totalEntries streams + 1) 0 ⟨streams, [], 0⟩ := by
    intro order
    rfl
  by_cases few : streams.length < config.quorum
  · exact .inl ⟨fun entered => Nat.not_le.2 few entered.2, [], fun order => by
      rw [unfolded, if_pos (by simp [few])]⟩
  have nonempty : (streams.length < config.quorum || streams.isEmpty) = false := by
    cases streams with
    | nil =>
      simp only [length_nil] at few
      omega
    | cons => simpa using few
  by_cases single : streams.length = 1
  · exact .inl ⟨fun entered => by omega, streams.headD [], fun order => by
      rw [unfolded, nonempty, if_neg (by simp), if_pos single]⟩
  · have several : 2 ≤ streams.length := by omega
    exact .inr ⟨⟨several, Nat.le_of_not_lt few⟩, fun order => by
      rw [unfolded, nonempty, if_neg (by simp), if_neg single]⟩

/-- Walking one ballot of a reached round differently elects the same key when
the two merges agree: both winners stand at the same place of the result. -/
theorem rewalk_elects_same (positive : 0 < config.quorum)
    (required : ∀ version, config.requiredQuorum version = config.quorum)
    (same : ∀ order, mergeLoop config order (totalEntries streams + 1) 0 ⟨streams, [], 0⟩ =
      mergeLoop config .fixed (totalEntries streams + 1) 0 ⟨streams, [], 0⟩)
    (reached : MergeReaches config .fixed streams round state)
    (inconsistent : (collectTops state.versions).consistent = false) {held : Scan}
    (broke : scanTops config.strict true ⟨.default, 0⟩ (topsOf state.versions) = .ballot held id)
    (emits : ∃ vote ∈ countVotes (ballotKeys config.strict id (topsOf state.versions)),
      config.quorum ≤ vote.2) (walk : Votes)
    (permuted : walk.Perm (countVotes (ballotKeys config.strict id (topsOf state.versions)))) :
    (elect config.strict (topsOf state.versions) walk held).latest =
      (elect config.strict (topsOf state.versions)
        (countVotes (ballotKeys config.strict id (topsOf state.versions))) held).latest := by
  let votes := countVotes (ballotKeys config.strict id (topsOf state.versions))
  let order := VoteOrder.rewalk round votes walk permuted
  have carried := ballot_id_carried broke
  have agree := elect_walks_agree carried held permuted (.refl votes)
  obtain ⟨vote, member, voteEnough⟩ := emits
  have enough : config.quorum ≤ (elect config.strict (topsOf state.versions) votes held).latestCount := by
    obtain ⟨key, leads, -, -⟩ := elect_seats (count_votes_ballot id)
      (count_votes_nonempty config.strict carried) held
    exact voteEnough.trans (leads.2 vote member)
  have toppedBy : config.quorum ≤ (topsOf state.versions).length := by
    rw [(mem_count_votes member).2] at voteEnough
    refine voteEnough.trans (count_le_length.trans ?_)
    rw [ballotKeys, length_map]
    exact length_filter_le _ _
  have winnerOf : ∀ enumerate : Votes → Votes,
      roundWinner config.strict enumerate state.versions =
        elect config.strict (topsOf state.versions) (enumerate votes) held := by
    intro enumerate
    simp [roundWinner, collect_tops_eq, inconsistent, pickLatest, broke, votes]
  have front : ∀ other : VoteOrder, (∀ earlier < round,
      VoteOrder.fixed.enumerate earlier = other.enumerate earlier) →
      config.quorum ≤ (elect config.strict (topsOf state.versions)
        (other.enumerate round votes) held).latestCount →
      ∀ merged, mergeLoop config other (totalEntries streams + 1) 0 ⟨streams, [], 0⟩ = some merged →
        state.merged ++ [(elect config.strict (topsOf state.versions)
          (other.enumerate round votes) held).latest] <+: merged := by
    intro other earlier emitted merged result
    obtain ⟨fuel, fuelEnough, rest⟩ :=
      merge_reaches_result positive (merge_reaches_before earlier reached)
    cases fuel with
    | zero => omega
    | succ fuel =>
      rw [rest] at result
      have extended := merge_loop_emits toppedBy result
      rwa [roundMerged, winnerOf, required, if_pos emitted] at extended
  obtain ⟨merged, result⟩ := merge_loop_finishes config .fixed positive (totalEntries streams + 1)
    0 ⟨streams, [], 0⟩ (Nat.lt_succ_self _)
  have walked : order.enumerate round votes = walk := if_pos ⟨rfl, rfl⟩
  have fixedFront := front .fixed (fun _ _ => rfl) enough merged result
  have orderFront := front order
    (fun earlier less => by
      funext ballot
      exact (if_neg fun here => less.ne here.1).symm)
    (by rw [walked, agree.1]; exact enough) merged (by rw [same order, result])
  rw [walked] at orderFront
  have nested := prefix_of_prefix_length_le orderFront fixedFront (by simp)
  exact singleton_inj.1 (append_cancel_left (nested.eq_of_length (by simp)))

/-- The merge is the same under every walk of its vote maps exactly when every vote that
emits is decided by its ballot. The rounds are those of one fixed walk: up to the first
vote that a walk decides, every walk makes the same rounds. -/
theorem merge_order_independent_iff (quorum : Nat) (strict : Bool) (requestedVersions : Nat)
    (streams : List (List FileMetaShallowVersion)) :
    (∀ left right : VoteOrder,
      mergeFileMetaVersions left quorum strict requestedVersions streams =
        mergeFileMetaVersions right quorum strict requestedVersions streams) ↔
      ∀ round state, MergeReaches (plainConfig quorum strict requestedVersions) .fixed streams
        round state → VoteSettled (plainConfig quorum strict requestedVersions) state := by
  rcases merge_entered_cases quorum strict requestedVersions streams with
    ⟨outside, merged, result⟩ | ⟨entered, result⟩
  · constructor
    · intro _ round state reached
      exact absurd (merge_reaches_entered reached) outside
    · intro _ left right
      rw [result left, result right]
  · constructor
    · intro same round state reached inconsistent held id broke emits
      apply decided_of_elect_constant (count_votes_ballot id)
        (count_votes_nonempty _ (ballot_id_carried broke)) held
      intro walk permuted
      have sameLoop : ∀ order, mergeLoop (plainConfig quorum strict requestedVersions) order
          (totalEntries streams + 1) 0 ⟨streams, [], 0⟩ =
            mergeLoop (plainConfig quorum strict requestedVersions) .fixed
              (totalEntries streams + 1) 0 ⟨streams, [], 0⟩ := by
        intro order
        rw [← result order, ← result .fixed, same order .fixed]
      have positive : 0 < (plainConfig quorum strict requestedVersions).quorum :=
        merge_config_quorum_pos ..
      rw [rewalk_elects_same positive (fun _ => rfl) sameLoop reached inconsistent broke emits
        walk permuted]
    · intro settled left right
      rw [result left, result right,
        merge_loop_settled (fun _ => rfl) settled left _ _ _ (.start entered),
        merge_loop_settled (fun _ => rfl) settled right _ _ _ (.start entered)]

/-- The vote map walked from its other end. -/
def VoteOrder.reversed : VoteOrder where
  enumerate _ votes := votes.reverse
  perm _ votes := votes.reverse_perm

/-- One version as a header of format 3 lists it. -/
def markedVersion : FileMetaShallowVersion :=
  unionVersion 0xA 1705312300 0x11223344

/-- The same version as a header of format 2, which has no erasure fields, lists it. -/
def unmarkedVersion : FileMetaShallowVersion :=
  { markedVersion with header := { markedVersion.header with ecN := 0, ecM := 0 } }

/-- Two disks that list one version under headers of different formats: neither
header sorts before the other, and the vote keeps the one it meets last. -/
theorem merge_depends_on_vote_order :
    ¬ ∀ (left right : VoteOrder) (quorum : Nat) (strict : Bool) (requestedVersions : Nat)
      (streams : List (List FileMetaShallowVersion)),
      mergeFileMetaVersions left quorum strict requestedVersions streams =
        mergeFileMetaVersions right quorum strict requestedVersions streams := by
  intro same
  exact absurd (same .fixed .reversed 1 true 0 [[unmarkedVersion], [markedVersion]]) (by decide)

end Rustfs.Filemeta
