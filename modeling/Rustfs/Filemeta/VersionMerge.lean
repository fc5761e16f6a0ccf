import Mathlib.Algebra.Order.Ring.Nat
import Mathlib.Data.List.Dedup
import Mathlib.Data.List.Perm.Basic
import Rustfs.Library.Quorum
import Rustfs.Filemeta.VersionHeader

/-!
# Cross-disk version merge

A transcription of `merge_file_meta_versions_inner`: one round collects the top
of every per-disk stream, settles on a `latest` entry, emits it when enough tops
carry it, and then removes at most one entry from every stream. The vote of a
round is counted in a `HashMap`, whose iteration order is an explicit parameter
here (`VoteOrder`). The loop runs on fuel; `merge_terminates` shows that the
number of entries bounds the number of rounds on every input.
-/

namespace Rustfs.Filemeta

open List Bool

def usizeMax : Nat := 2 ^ 64 - 1

def writeQuorumFromErasure (dataBlocks parityBlocks : Nat) : Option Nat :=
  if dataBlocks = 0 then none
  else some (if dataBlocks = parityBlocks then min (dataBlocks + 1) usizeMax else dataBlocks)

def FileMetaVersionHeader.writeQuorum (self : FileMetaVersionHeader) (fallbackQuorum : Nat) : Nat :=
  if self.versionType ≠ .object || !self.hasEc then fallbackQuorum
  else (writeQuorumFromErasure self.ecM.toNat self.ecN.toNat).getD fallbackQuorum

/-- `payloadQuorum` is the write quorum recorded in a decoded version body,
`parse_version_meta().ok().and_then(erasure_write_quorum)`. -/
def FileMetaShallowVersion.writeQuorum (payloadQuorum : Bytes → Option Nat)
    (self : FileMetaShallowVersion) (fallbackQuorum : Nat) : Nat :=
  let headerQuorum := self.header.writeQuorum fallbackQuorum
  if self.header.hasEc ||
      !(self.header.versionType = .object || self.header.versionType = .legacy) then
    headerQuorum
  else (payloadQuorum self.metaBytes).getD headerQuorum

abbrev Votes := List (FileMetaVersionHeader × Nat)

/-- The order in which each round's vote map is walked. -/
structure VoteOrder where
  enumerate : Nat → Votes → Votes
  perm : ∀ round votes, (enumerate round votes).Perm votes

def VoteOrder.fixed : VoteOrder where
  enumerate _ votes := votes
  perm _ _ := .refl _

structure MergeConfig where
  quorum : Nat
  strict : Bool
  requestedVersions : Nat
  requiredQuorum : FileMetaShallowVersion → Nat

structure MergeState where
  versions : List (List FileMetaShallowVersion)
  merged : List FileMetaShallowVersion
  nVersions : Nat

structure TopScan where
  tops : List FileMetaShallowVersion
  topSig : FileMetaVersionHeader
  consistent : Bool

def TopScan.start : TopScan := ⟨[], .default, true⟩

def TopScan.visit (scan : TopScan) : List FileMetaShallowVersion → TopScan
  | [] => { scan with consistent := false }
  | top :: _ =>
    if scan.tops.isEmpty then ⟨scan.tops ++ [top], top.header, true⟩
    else ⟨scan.tops ++ [top], scan.topSig, scan.consistent && top.header = scan.topSig⟩

def collectTops (versions : List (List FileMetaShallowVersion)) : TopScan :=
  versions.foldl TopScan.visit .start

structure Scan where
  latest : FileMetaShallowVersion
  latestCount : Nat

/-- The scan over the tops either reaches the end or breaks into a vote on one
version id. -/
inductive ScanOutcome
  | settled (scan : Scan)
  | ballot (scan : Scan) (id : Option Uuid)

def ScanOutcome.scan : ScanOutcome → Scan
  | .settled scan => scan
  | .ballot scan _ => scan

def scanTops (strict : Bool) : Bool → Scan → List FileMetaShallowVersion → ScanOutcome
  | _, scan, [] => .settled scan
  | first, scan, ver :: rest =>
    if ver.header = scan.latest.header then
      scanTops strict false { scan with latestCount := scan.latestCount + 1 } rest
    else if first || ver.header.sortsBefore scan.latest.header then
      let count :=
        if first || scan.latestCount = 0 then 1
        else if !strict && ver.header.matchesNotStrict scan.latest.header then
          scan.latestCount + 1
        else 1
      scanTops strict false ⟨ver, count⟩ rest
    -- Mismatch, but older.
    else if 0 < scan.latestCount && !strict &&
        ver.header.matchesNotStrict scan.latest.header then
      scanTops strict false { scan with latestCount := scan.latestCount + 1 } rest
    else if 0 < scan.latestCount && ver.header.versionId = scan.latest.header.versionId then
      .ballot scan ver.header.versionId
    else scanTops strict false scan rest

def voteKey (strict : Bool) (header : FileMetaVersionHeader) : FileMetaVersionHeader :=
  if strict then header else { header with signature := 0 }

def ballotKeys (strict : Bool) (id : Option Uuid) (tops : List FileMetaShallowVersion) :
    List FileMetaVersionHeader :=
  (tops.filter fun top => top.header.versionId = id).map fun top => voteKey strict top.header

/-- Content of the vote map: every distinct key with the number of its votes. -/
def countVotes (keys : List FileMetaVersionHeader) : Votes :=
  keys.dedup.map fun key => (key, keys.count key)

def seat (strict : Bool) (tops : List FileMetaShallowVersion) (key : FileMetaVersionHeader)
    (latest : FileMetaShallowVersion) : FileMetaShallowVersion :=
  tops.foldl (fun latest top => if voteKey strict top.header = key then top else latest) latest

def electStep (strict : Bool) (tops : List FileMetaShallowVersion) (scan : Scan)
    (vote : FileMetaVersionHeader × Nat) : Scan :=
  if vote.2 < scan.latestCount then scan
  else if vote.2 = scan.latestCount && scan.latest.header.sortsBefore vote.1 then scan
  else ⟨seat strict tops vote.1 scan.latest, vote.2⟩

def elect (strict : Bool) (tops : List FileMetaShallowVersion) (votes : Votes) (scan : Scan) :
    Scan :=
  votes.foldl (electStep strict tops) { scan with latestCount := 0 }

def pickLatest (strict : Bool) (enumerate : Votes → Votes)
    (tops : List FileMetaShallowVersion) : Scan :=
  match scanTops strict true ⟨.default, 0⟩ tops with
  | .settled scan => scan
  | .ballot scan id => elect strict tops (enumerate (countVotes (ballotKeys strict id tops))) scan

def roundWinner (strict : Bool) (enumerate : Votes → Votes)
    (versions : List (List FileMetaShallowVersion)) : Scan :=
  let scan := collectTops versions
  if scan.consistent then ⟨scan.tops.headD .default, scan.tops.length⟩
  else pickLatest strict enumerate scan.tops

def removable (latest : FileMetaShallowVersion) (merged : List FileMetaShallowVersion)
    (ver : FileMetaShallowVersion) : Bool :=
  optionLt latest.header.modTime ver.header.modTime ||
    ver.header = latest.header ||
    latest.header.versionId = ver.header.versionId ||
    merged.any fun mergedV => ver.header.versionId = mergedV.header.versionId

/-- The `retain` closure returns `false` once and sets `bre`, so it removes the
first removable entry of the stream, wherever it stands, and nothing else. -/
def removeSelected (latest : FileMetaShallowVersion) (merged : List FileMetaShallowVersion)
    (vers : List FileMetaShallowVersion) : List FileMetaShallowVersion :=
  vers.eraseP (removable latest merged)

inductive RoundResult
  | finished (merged : List FileMetaShallowVersion)
  | next (state : MergeState)

/-- The round's `merged` list: the winner joins it when enough tops stand behind it. -/
def roundMerged (config : MergeConfig) (winner : Scan) (merged : List FileMetaShallowVersion) :
    List FileMetaShallowVersion :=
  if config.requiredQuorum winner.latest ≤ winner.latestCount then merged ++ [winner.latest]
  else merged

def roundNVersions (config : MergeConfig) (winner : Scan) (nVersions : Nat) : Nat :=
  if config.requiredQuorum winner.latest ≤ winner.latestCount &&
      !winner.latest.header.freeVersion then nVersions + 1
  else nVersions

def roundState (config : MergeConfig) (winner : Scan) (state : MergeState) : MergeState where
  versions := state.versions.map (removeSelected winner.latest
    (roundMerged config winner state.merged))
  merged := roundMerged config winner state.merged
  nVersions := roundNVersions config winner state.nVersions

def mergeRound (config : MergeConfig) (enumerate : Votes → Votes) (state : MergeState) :
    RoundResult :=
  if (collectTops state.versions).tops.length < config.quorum then .finished state.merged
  else
    let state := roundState config (roundWinner config.strict enumerate state.versions) state
    if 0 < config.requestedVersions && config.requestedVersions = state.nVersions then
      .finished (state.merged ++ state.versions.headD [])
    else .next state

/-- `none` only when the fuel runs out before the loop breaks. -/
def mergeLoop (config : MergeConfig) (order : VoteOrder) :
    Nat → Nat → MergeState → Option (List FileMetaShallowVersion)
  | 0, _, _ => none
  | fuel + 1, round, state =>
    match mergeRound config (order.enumerate round) state with
    | .finished merged => some merged
    | .next state => mergeLoop config order fuel (round + 1) state

def totalEntries (versions : List (List FileMetaShallowVersion)) : Nat :=
  (versions.map List.length).sum

def mergeConfig (payloadQuorum : Bytes → Option Nat) (quorum : Nat) (strict : Bool)
    (requestedVersions : Nat) (enforceWriteQuorum : Bool) (writeQuorumSlack : Nat) :
    MergeConfig :=
  let quorum := if quorum = 0 then 1 else quorum
  { quorum := quorum
    strict := if quorum = 1 then true else strict
    requestedVersions := requestedVersions
    requiredQuorum := fun version =>
      if enforceWriteQuorum then
        max (version.writeQuorum payloadQuorum quorum - writeQuorumSlack) quorum
      else quorum }

def mergeFileMetaVersionsInner (payloadQuorum : Bytes → Option Nat) (order : VoteOrder)
    (quorum : Nat) (strict : Bool) (requestedVersions : Nat) (enforceWriteQuorum : Bool)
    (writeQuorumSlack : Nat) (versions : List (List FileMetaShallowVersion)) :
    Option (List FileMetaShallowVersion) :=
  let config := mergeConfig payloadQuorum quorum strict requestedVersions enforceWriteQuorum
    writeQuorumSlack
  if versions.length < config.quorum || versions.isEmpty then some []
  else if versions.length = 1 then
    if !enforceWriteQuorum then some (versions.headD [])
    else if ((versions.headD []).head?.map config.requiredQuorum).getD config.quorum ≤
        versions.length then
      some (versions.headD [])
    else some []
  else mergeLoop config order (totalEntries versions + 1) 0 ⟨versions, [], 0⟩

def mergeFileMetaVersions (order : VoteOrder) (quorum : Nat) (strict : Bool)
    (requestedVersions : Nat) (versions : List (List FileMetaShallowVersion)) :
    Option (List FileMetaShallowVersion) :=
  mergeFileMetaVersionsInner (fun _ => none) order quorum strict requestedVersions false 0 versions

def topsOf (versions : List (List FileMetaShallowVersion)) : List FileMetaShallowVersion :=
  versions.filterMap List.head?

@[simp] theorem tops_of_empty_cons (rest : List (List FileMetaShallowVersion)) :
    topsOf ([] :: rest) = topsOf rest := rfl

@[simp] theorem tops_of_cons (top : FileMetaShallowVersion) (tail : List FileMetaShallowVersion)
    (rest : List (List FileMetaShallowVersion)) :
    topsOf ((top :: tail) :: rest) = top :: topsOf rest := rfl

section

variable (versions : List (List FileMetaShallowVersion))

include versions

theorem visit_tops (scan : TopScan) :
    (versions.foldl TopScan.visit scan).tops = scan.tops ++ topsOf versions := by
  induction versions generalizing scan with
  | nil => simp [topsOf]
  | cons stream rest ih =>
    rw [foldl_cons, ih]
    cases stream with
    | nil => simp [TopScan.visit]
    | cons top tail =>
      by_cases empty : scan.tops.isEmpty <;> simp [TopScan.visit, empty]

theorem collect_tops_eq : (collectTops versions).tops = topsOf versions := by
  simp [collectTops, visit_tops, TopScan.start]

/-- While the scan calls itself consistent, every collected top carries the
header of the first one. -/
theorem visit_consistent (scan : TopScan)
    (agreed : scan.consistent = true → ∀ top ∈ scan.tops, top.header = scan.topSig) :
    (versions.foldl TopScan.visit scan).consistent = true →
      ∀ top ∈ (versions.foldl TopScan.visit scan).tops,
        top.header = (versions.foldl TopScan.visit scan).topSig := by
  induction versions generalizing scan with
  | nil => simpa using agreed
  | cons stream rest ih =>
    apply ih
    cases stream with
    | nil => simp [TopScan.visit]
    | cons top tail =>
      by_cases empty : scan.tops.isEmpty
      · simp [TopScan.visit, List.isEmpty_iff.1 empty]
      · simp only [TopScan.visit, empty, false_eq_true, if_false, and_eq_true,
          decide_eq_true_eq, mem_append, mem_singleton]
        rintro ⟨consistent, same⟩ other (earlier | rfl)
        · exact agreed consistent other earlier
        · exact same

theorem consistent_tops_agree (consistent : (collectTops versions).consistent = true) :
    ∀ top ∈ topsOf versions, top.header = ((topsOf versions).headD .default).header := by
  have agreed := visit_consistent versions .start (by simp [TopScan.start]) consistent
  change ∀ top ∈ (collectTops versions).tops, _ at agreed
  rw [collect_tops_eq] at agreed
  intro top member
  cases tops : topsOf versions with
  | nil => simp [tops] at member
  | cons first rest =>
    rw [agreed top member, headD_cons]
    exact (agreed first (by simp [tops])).symm

end

theorem scan_tops_latest (strict : Bool) (tops rest : List FileMetaShallowVersion)
    (first : Bool) (scan : Scan) (within : ∀ ver ∈ rest, ver ∈ tops)
    (nonempty : first = true → rest ≠ [])
    (held : first = false → ∃ top ∈ tops, top.header = scan.latest.header) :
    ∃ top ∈ tops, top.header = (scanTops strict first scan rest).scan.latest.header := by
  induction rest generalizing first scan with
  | nil =>
    cases first with
    | true => simp at nonempty
    | false => simpa [scanTops, ScanOutcome.scan] using held
  | cons ver rest ih =>
    have verTop : ver ∈ tops := within ver mem_cons_self
    have restTops : ∀ other ∈ rest, other ∈ tops :=
      fun other member => within other (mem_cons_of_mem _ member)
    rw [scanTops]
    split
    case isTrue same => exact ih false _ restTops (by simp) fun _ => ⟨ver, verTop, same⟩
    split
    · exact ih false _ restTops (by simp) fun _ => ⟨ver, verTop, rfl⟩
    rename_i notFirst
    have later : first = false := by
      cases first
      · rfl
      · simp at notFirst
    split
    · exact ih false _ restTops (by simp) fun _ => held later
    split
    · exact held later
    · exact ih false _ restTops (by simp) fun _ => held later

theorem scan_tops_ballot (strict : Bool) (rest : List FileMetaShallowVersion) (first : Bool)
    (scan result : Scan) (id : Option Uuid)
    (broke : scanTops strict first scan rest = .ballot result id) :
    id = result.latest.header.versionId := by
  induction rest generalizing first scan with
  | nil => simp [scanTops] at broke
  | cons ver rest ih =>
    rw [scanTops] at broke
    split at broke
    · exact ih _ _ broke
    split at broke
    · exact ih _ _ broke
    split at broke
    · exact ih _ _ broke
    split at broke
    case isTrue sameId =>
      cases broke
      simp only [and_eq_true, decide_eq_true_eq] at sameId
      exact sameId.2
    · exact ih _ _ broke

theorem seat_mem (strict : Bool) (key : FileMetaVersionHeader)
    (tops : List FileMetaShallowVersion) (latest : FileMetaShallowVersion) :
    seat strict tops key latest = latest ∨
      (seat strict tops key latest ∈ tops ∧
        voteKey strict (seat strict tops key latest).header = key) := by
  unfold seat
  induction tops generalizing latest with
  | nil => simp
  | cons top rest ih =>
    rw [foldl_cons]
    by_cases carries : voteKey strict top.header = key
    · rw [if_pos carries]
      rcases ih top with kept | ⟨member, keyed⟩
      · exact .inr (by rw [kept]; exact ⟨mem_cons_self, carries⟩)
      · exact .inr ⟨mem_cons_of_mem _ member, keyed⟩
    · rw [if_neg carries]
      rcases ih latest with kept | ⟨member, keyed⟩
      · exact .inl kept
      · exact .inr ⟨mem_cons_of_mem _ member, keyed⟩

theorem elect_mem (strict : Bool) (tops : List FileMetaShallowVersion) (votes : Votes)
    (scan : Scan) (held : ∃ top ∈ tops, top.header = scan.latest.header) :
    ∃ top ∈ tops, top.header = (elect strict tops votes scan).latest.header := by
  have step : ∀ (votes : Votes) (scan : Scan),
      (∃ top ∈ tops, top.header = scan.latest.header) →
        ∃ top ∈ tops, top.header = (votes.foldl (electStep strict tops) scan).latest.header := by
    intro votes
    induction votes with
    | nil => exact fun _ held => held
    | cons vote rest ih =>
      intro scan held
      apply ih
      unfold electStep
      split
      · exact held
      split
      · exact held
      · rcases seat_mem strict vote.1 tops scan.latest with kept | ⟨member, -⟩
        · simpa only [kept] using held
        · exact ⟨_, member, rfl⟩
  exact step votes _ held

theorem pick_latest_mem (strict : Bool) (enumerate : Votes → Votes)
    (tops : List FileMetaShallowVersion) (nonempty : tops ≠ []) :
    ∃ top ∈ tops, top.header = (pickLatest strict enumerate tops).latest.header := by
  have scanned := scan_tops_latest strict tops tops true ⟨.default, 0⟩ (fun _ member => member)
    (fun _ => nonempty) (by simp)
  unfold pickLatest
  cases outcome : scanTops strict true ⟨.default, 0⟩ tops with
  | settled scan =>
    rw [outcome] at scanned
    exact scanned
  | ballot scan id =>
    rw [outcome] at scanned
    exact elect_mem strict tops _ scan scanned

theorem round_winner_mem (strict : Bool) (enumerate : Votes → Votes)
    (versions : List (List FileMetaShallowVersion)) (nonempty : topsOf versions ≠ []) :
    ∃ top ∈ topsOf versions,
      top.header = (roundWinner strict enumerate versions).latest.header := by
  simp only [roundWinner, collect_tops_eq]
  split
  · cases tops : topsOf versions with
    | nil => exact absurd tops nonempty
    | cons first rest => exact ⟨first, by simp, by simp⟩
  · exact pick_latest_mem strict enumerate _ nonempty

theorem removable_of_header_eq {latest ver : FileMetaShallowVersion}
    (merged : List FileMetaShallowVersion) (same : ver.header = latest.header) :
    removable latest merged ver = true := by
  simp [removable, same]

theorem remove_selected_sublist (latest : FileMetaShallowVersion)
    (merged vers : List FileMetaShallowVersion) :
    (removeSelected latest merged vers).Sublist vers :=
  eraseP_sublist

theorem remove_selected_top {latest top : FileMetaShallowVersion}
    (merged tail : List FileMetaShallowVersion) (same : top.header = latest.header) :
    removeSelected latest merged (top :: tail) = tail := by
  rw [removeSelected, eraseP_cons_of_pos (removable_of_header_eq merged same)]

variable {versions : List (List FileMetaShallowVersion)} {config : MergeConfig}

theorem mem_tops {top : FileMetaShallowVersion} :
    top ∈ topsOf versions ↔ ∃ tail, (top :: tail) ∈ versions := by
  simp only [topsOf, mem_filterMap]
  constructor
  · rintro ⟨stream, member, head⟩
    obtain ⟨tail, rfl⟩ := head?_eq_some_iff.1 head
    exact ⟨tail, member⟩
  · rintro ⟨tail, member⟩
    exact ⟨_, member, rfl⟩

theorem total_entries_removed_le (latest : FileMetaShallowVersion)
    (merged : List FileMetaShallowVersion) (versions : List (List FileMetaShallowVersion)) :
    totalEntries (versions.map (removeSelected latest merged)) ≤ totalEntries versions := by
  induction versions with
  | nil => simp [totalEntries]
  | cons stream rest ih =>
    have shorter := (remove_selected_sublist latest merged stream).length_le
    simp only [totalEntries, map_cons, sum_cons] at *
    omega

theorem total_entries_removed_lt (latest : FileMetaShallowVersion)
    (merged : List FileMetaShallowVersion) (versions : List (List FileMetaShallowVersion))
    (top : FileMetaShallowVersion) (member : top ∈ topsOf versions)
    (same : top.header = latest.header) :
    totalEntries (versions.map (removeSelected latest merged)) < totalEntries versions := by
  obtain ⟨tail, inStreams⟩ := mem_tops.1 member
  obtain ⟨before, after, rfl⟩ := append_of_mem inStreams
  have beforeLe := total_entries_removed_le latest merged before
  have afterLe := total_entries_removed_le latest merged after
  simp only [totalEntries, map_append, map_cons, sum_append, sum_cons,
    remove_selected_top merged tail same, length_cons] at *
  omega

/-- What one round can do: stop for lack of tops, stop at the requested number
of versions, or hand on the round's state. -/
theorem merge_round_cases (config : MergeConfig) (enumerate : Votes → Votes) (state : MergeState) :
    ((topsOf state.versions).length < config.quorum ∧
        mergeRound config enumerate state = .finished state.merged) ∨
      (config.quorum ≤ (topsOf state.versions).length ∧ 0 < config.requestedVersions ∧
        mergeRound config enumerate state = .finished
          ((roundState config (roundWinner config.strict enumerate state.versions) state).merged ++
            (roundState config (roundWinner config.strict enumerate state.versions)
              state).versions.headD [])) ∨
      (config.quorum ≤ (topsOf state.versions).length ∧
        mergeRound config enumerate state = .next
          (roundState config (roundWinner config.strict enumerate state.versions) state)) := by
  by_cases few : (topsOf state.versions).length < config.quorum
  · exact .inl ⟨few, by simp [mergeRound, collect_tops_eq, few]⟩
  · have enough : config.quorum ≤ (topsOf state.versions).length := Nat.le_of_not_lt few
    by_cases limit : (0 < config.requestedVersions && config.requestedVersions =
        (roundState config (roundWinner config.strict enumerate state.versions) state).nVersions) =
          true
    · have requested : 0 < config.requestedVersions := by
        rw [and_eq_true, decide_eq_true_eq] at limit
        exact limit.1
      exact .inr (.inl ⟨enough, requested, by
        rw [mergeRound, collect_tops_eq, if_neg few, if_pos limit]⟩)
    · exact .inr (.inr ⟨enough, by rw [mergeRound, collect_tops_eq, if_neg few, if_neg limit]⟩)

theorem tops_nonempty
    (positive : 0 < config.quorum) (enough : config.quorum ≤ (topsOf versions).length) :
    topsOf versions ≠ [] := by
  rintro empty
  rw [empty, length_nil] at enough
  omega

theorem merge_round_decreases {enumerate : Votes → Votes}
    {state next : MergeState} (positive : 0 < config.quorum)
    (step : mergeRound config enumerate state = .next next) :
    totalEntries next.versions < totalEntries state.versions := by
  rcases merge_round_cases config enumerate state with
    ⟨_, stop⟩ | ⟨_, _, stop⟩ | ⟨enough, goes⟩
  · rw [stop] at step
    cases step
  · rw [stop] at step
    cases step
  · rw [goes] at step
    cases step
    obtain ⟨top, member, same⟩ :=
      round_winner_mem config.strict enumerate _ (tops_nonempty positive enough)
    exact total_entries_removed_lt _ _ _ top member same

theorem merge_loop_finishes (config : MergeConfig) (order : VoteOrder)
    (positive : 0 < config.quorum) (fuel round : Nat) (state : MergeState)
    (enough : totalEntries state.versions < fuel) :
    ∃ merged, mergeLoop config order fuel round state = some merged := by
  induction fuel generalizing round state with
  | zero => omega
  | succ fuel ih =>
    rw [mergeLoop]
    cases step : mergeRound config (order.enumerate round) state with
    | finished merged => exact ⟨merged, rfl⟩
    | next next =>
      have shrinks := merge_round_decreases positive step
      exact ih (round + 1) next (by omega)

/-- Induction rule for the loop without a version limit: what every round
preserves holds of the state in which the loop stops, and the result is that
state's `merged`. -/
theorem merge_loop_invariant (config : MergeConfig) (order : VoteOrder)
    (unlimited : config.requestedVersions = 0) (invariant : Nat → MergeState → Prop)
    (step : ∀ round state, invariant round state →
      config.quorum ≤ (topsOf state.versions).length →
        invariant (round + 1) (roundState config
          (roundWinner config.strict (order.enumerate round) state.versions) state))
    (fuel round : Nat) (state : MergeState) (result : List FileMetaShallowVersion)
    (holds : invariant round state) (done : mergeLoop config order fuel round state = some result) :
    ∃ last final, invariant last final ∧
      (topsOf final.versions).length < config.quorum ∧ result = final.merged := by
  induction fuel generalizing round state with
  | zero => simp [mergeLoop] at done
  | succ fuel ih =>
    rw [mergeLoop] at done
    rcases merge_round_cases config (order.enumerate round) state with
      ⟨few, stop⟩ | ⟨_, limited, _⟩ | ⟨enough, goes⟩
    · rw [stop] at done
      exact ⟨round, state, holds, few, (Option.some.inj done).symm⟩
    · omega
    · rw [goes] at done
      exact ih (round + 1) _ (step round state holds enough) done

theorem merge_config_quorum_pos (payloadQuorum : Bytes → Option Nat) (quorum : Nat)
    (strict : Bool) (requestedVersions : Nat) (enforceWriteQuorum : Bool) (writeQuorumSlack : Nat) :
    0 < (mergeConfig payloadQuorum quorum strict requestedVersions enforceWriteQuorum
      writeQuorumSlack).quorum := by
  change 0 < if quorum = 0 then 1 else quorum
  split <;> omega

/-- The loop ends on every input: no order of the streams, repetition of ids or
vote order is excluded. -/
theorem merge_terminates (payloadQuorum : Bytes → Option Nat) (order : VoteOrder)
    (quorum : Nat) (strict : Bool) (requestedVersions : Nat) (enforceWriteQuorum : Bool)
    (writeQuorumSlack : Nat) (versions : List (List FileMetaShallowVersion)) :
    ∃ merged, mergeFileMetaVersionsInner payloadQuorum order quorum strict requestedVersions
      enforceWriteQuorum writeQuorumSlack versions = some merged := by
  simp only [mergeFileMetaVersionsInner]
  split
  · exact ⟨_, rfl⟩
  split
  · split
    · exact ⟨_, rfl⟩
    · split <;> exact ⟨_, rfl⟩
  · apply merge_loop_finishes
    · exact merge_config_quorum_pos ..
    · exact Nat.lt_succ_self _

end Rustfs.Filemeta
