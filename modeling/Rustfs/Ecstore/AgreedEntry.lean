import Rustfs.Filemeta.DirectoryCopies

/-!
# Listing entries that all drives agree on

`resolve_agreed_listing_entry` answers for one entry that every drive of a listing returned, where
the general resolution would walk its copies. It looks at the write quorum of each version;
`resolve_inner` looks at that of the first one and merges the copies otherwise. The listing around
it is not part of this module, and a list that is too long to be encoded is not among its answers.
-/

namespace Rustfs.Ecstore.AgreedEntry

open List Bool Option Filemeta

inductive ListingEntryResolution
  | resolved (entry : MetaCacheEntry)
  | needsSupplement (entry : MetaCacheEntry) (fallback : Option MetaCacheEntry)
  | rejected
  deriving DecidableEq

def versionRequiresSupplement (versionRequiredQuorum readerDisks selectedObjectVersions
    requestedVersions : Nat) : Bool :=
  readerDisks < versionRequiredQuorum &&
    (requestedVersions = 0 || selectedObjectVersions < requestedVersions)

def listingEntryWithSelectedVersions (hash : Hash) (entry : MetaCacheEntry) (cached : FileMeta)
    (selectedVersions : List FileMetaShallowVersion) : MetaCacheEntry :=
  let mergedCached : FileMeta := { cached with versions := selectedVersions }
  { entry with metadata := mergedCached.marshalMsg hash, cached := some mergedCached }

def requiredQuorum (payloadQuorum : Bytes → Option Nat) (resolver : MetadataResolutionParams)
    (version : FileMetaShallowVersion) : Nat :=
  max (version.writeQuorum payloadQuorum resolver.objQuorum - resolver.writeQuorumSlack)
    resolver.objQuorum

/-- The locals of the loop over the versions. -/
structure Selection where
  selectedVersions : List FileMetaShallowVersion
  selectedObjectVersions : Nat
  firstSelectedIdx : Option Nat
  needsSupplement : Bool

def Selection.start : Selection := ⟨[], 0, none, false⟩

def Selection.select (selection : Selection) (idx : Nat) (version : FileMetaShallowVersion) :
    Selection :=
  { selection with
    selectedVersions := selection.selectedVersions ++ [version]
    selectedObjectVersions :=
      if version.header.freeVersion then selection.selectedObjectVersions
      else selection.selectedObjectVersions + 1
    firstSelectedIdx := selection.firstSelectedIdx.or (some idx) }

def selectVersions (required : FileMetaShallowVersion → Nat) (readerDisks requestedVersions : Nat) :
    Nat → Selection → List FileMetaShallowVersion → Selection
  | _, selection, [] => selection
  | idx, selection, version :: rest =>
    if readerDisks < required version then
      selectVersions required readerDisks requestedVersions (idx + 1)
        { selection with
          needsSupplement := selection.needsSupplement ||
            versionRequiresSupplement (required version) readerDisks
              selection.selectedObjectVersions requestedVersions } rest
    else
      let selection := selection.select idx version
      if 0 < requestedVersions && selection.selectedObjectVersions = requestedVersions then selection
      else selectVersions required readerDisks requestedVersions (idx + 1) selection rest

def Selection.answer (hash : Hash) (requestedVersions : Nat) (entry : MetaCacheEntry)
    (cached : FileMeta) (selection : Selection) : ListingEntryResolution :=
  if selection.needsSupplement then
    .needsSupplement entry
      (if selection.selectedVersions.isEmpty then none
      else if selection.selectedVersions.length = cached.versions.length then some entry
      else some (listingEntryWithSelectedVersions hash entry cached selection.selectedVersions))
  else if selection.selectedVersions.isEmpty then .rejected
  else
    let selectedLatest := selection.firstSelectedIdx = some 0 && requestedVersions = 1 &&
      selection.selectedVersions.head?.any fun version => !version.header.freeVersion
    if selectedLatest || selection.selectedVersions.length = cached.versions.length then
      .resolved entry
    else .resolved (listingEntryWithSelectedVersions hash entry cached selection.selectedVersions)

def resolveAgreedListingEntry (hash : Hash) (payloadQuorum : Bytes → Option Nat)
    (entry : MetaCacheEntry) (readerDisks : Nat) (resolver : MetadataResolutionParams)
    (enforceWriteQuorum : Bool) : ListingEntryResolution :=
  if !enforceWriteQuorum then .resolved entry
  else if entry.isDir then
    if resolver.dirQuorum ≤ readerDisks then .resolved entry else .rejected
  else if readerDisks < resolver.objQuorum then .rejected
  else
    match entry.xlMeta hash with
    | .error _ => if resolver.objQuorum ≤ 1 then .resolved entry else .rejected
    | .ok (cached, entry) =>
      (selectVersions (requiredQuorum payloadQuorum resolver) readerDisks
        resolver.requestedVersions 0 .start cached.versions).answer hash
          resolver.requestedVersions entry cached

def listed (version : FileMetaShallowVersion) : Bool := !version.header.freeVersion

/-- The versions with a quorum, up to the first one that is listed. -/
def chosen (required : FileMetaShallowVersion → Nat) (readerDisks : Nat) :
    List FileMetaShallowVersion → List FileMetaShallowVersion
  | [] => []
  | version :: rest =>
    if readerDisks < required version then chosen required readerDisks rest
    else if listed version then [version]
    else version :: chosen required readerDisks rest

variable {versions : List FileMetaShallowVersion}

section Chosen

variable {required : FileMetaShallowVersion → Nat} {readerDisks : Nat}
  {version : FileMetaShallowVersion}

theorem chosen_short (short : readerDisks < required version) (rest : List FileMetaShallowVersion) :
    chosen required readerDisks (version :: rest) = chosen required readerDisks rest := if_pos short

theorem chosen_listed (reached : required version ≤ readerDisks)
    (isListed : listed version = true) (rest : List FileMetaShallowVersion) :
    chosen required readerDisks (version :: rest) = [version] := by
  rw [chosen, if_neg (Nat.not_lt.2 reached), if_pos isListed]

theorem chosen_free (reached : required version ≤ readerDisks)
    (free : listed version = false) (rest : List FileMetaShallowVersion) :
    chosen required readerDisks (version :: rest) = version :: chosen required readerDisks rest := by
  rw [chosen, if_neg (Nat.not_lt.2 reached), if_neg (by simp [free])]

theorem chosen_sublist (versions : List FileMetaShallowVersion) :
    (chosen required readerDisks versions).Sublist versions := by
  induction versions with
  | nil => exact List.Sublist.refl []
  | cons version rest ih =>
    rw [chosen]
    split
    · exact ih.cons version
    split
    · exact (nil_sublist rest).cons_cons version
    · exact ih.cons_cons version

theorem chosen_eq_nil_iff :
    chosen required readerDisks versions = [] ↔
      ∀ version ∈ versions, readerDisks < required version := by
  induction versions with
  | nil => simp [chosen]
  | cons version rest ih =>
    rw [chosen, forall_mem_cons]
    split
    · rename_i short
      rw [ih]
      exact ⟨fun all => ⟨short, all⟩, And.right⟩
    · rename_i reached
      split
      all_goals exact iff_of_false (cons_ne_nil _ _) fun all => reached all.1

theorem chosen_find (versions : List FileMetaShallowVersion) :
    (chosen required readerDisks versions).find? listed =
      versions.find? fun version => decide (required version ≤ readerDisks) && listed version := by
  induction versions with
  | nil => rfl
  | cons version rest ih =>
    by_cases short : readerDisks < required version
    · rw [chosen_short short, ih, find?_cons_of_neg (by simp [Nat.not_le.2 short])]
    · have reached := Nat.not_lt.1 short
      cases isListed : listed version with
      | true =>
        rw [chosen_listed reached isListed, find?_cons_of_pos isListed,
          find?_cons_of_pos (by simp [reached, isListed])]
      | false =>
        rw [chosen_free reached isListed, find?_cons_of_neg (by simp [isListed]), ih,
          find?_cons_of_neg (by simp [isListed])]

end Chosen

section Selection

variable {required : FileMetaShallowVersion → Nat} {readerDisks : Nat}

theorem select_versions_chosen (versions : List FileMetaShallowVersion) (idx : Nat)
    (selection : Selection) (unlisted : selection.selectedObjectVersions = 0) :
    (selectVersions required readerDisks 1 idx selection versions).selectedVersions =
      selection.selectedVersions ++ chosen required readerDisks versions := by
  induction versions generalizing idx selection with
  | nil => simp [selectVersions, chosen]
  | cons version rest ih =>
    rw [selectVersions]
    by_cases short : readerDisks < required version
    · rw [if_pos short, chosen_short short]
      exact ih _ _ unlisted
    · have reached := Nat.not_lt.1 short
      rw [if_neg short]
      cases isFree : version.header.freeVersion with
      | true =>
        have free : listed version = false := by simp [listed, isFree]
        have still : (selection.select idx version).selectedObjectVersions = 0 := by
          simp [Selection.select, isFree, unlisted]
        rw [if_neg (by simp [still]), ih _ _ still, chosen_free reached free]
        simp [Selection.select]
      | false =>
        have isListed : listed version = true := by simp [listed, isFree]
        have done : (selection.select idx version).selectedObjectVersions = 1 := by
          simp [Selection.select, isFree, unlisted]
        rw [if_pos (by simp [done]), chosen_listed reached isListed]
        rfl

theorem select_versions_behind (requestedVersions : Nat) (versions : List FileMetaShallowVersion)
    (idx : Nat) (selection : Selection) (behind : 0 < idx)
    (later : selection.firstSelectedIdx ≠ some 0) :
    (selectVersions required readerDisks requestedVersions idx selection versions).firstSelectedIdx ≠
      some 0 := by
  induction versions generalizing idx selection with
  | nil => exact later
  | cons version rest ih =>
    have selected : (selection.select idx version).firstSelectedIdx ≠ some 0 := by
      unfold Selection.select
      cases isSet : selection.firstSelectedIdx with
      | none => simpa using Nat.pos_iff_ne_zero.1 behind
      | some first => simpa [isSet] using later
    rw [selectVersions]
    split
    · exact ih (idx + 1) _ (Nat.succ_pos idx) later
    dsimp only
    split
    · exact selected
    · exact ih (idx + 1) _ (Nat.succ_pos idx) selected

theorem first_version_reached {requestedVersions : Nat}
    (isFirst : (selectVersions required readerDisks requestedVersions 0 .start
      versions).firstSelectedIdx = some 0) :
    ∃ version rest, versions = version :: rest ∧ required version ≤ readerDisks := by
  cases versions with
  | nil => cases isFirst
  | cons version rest =>
    refine ⟨version, rest, rfl, Nat.not_lt.1 fun short => ?_⟩
    rw [selectVersions, if_pos short] at isFirst
    exact select_versions_behind requestedVersions rest 1 _ Nat.one_pos (by simp [Selection.start]) isFirst

end Selection

def firstListed (hash : Hash) (entry : MetaCacheEntry) : Option FileMetaShallowVersion :=
  (entry.fileMeta hash).toOption.bind fun fileMeta => fileMeta.versions.find? listed

theorem first_listed_cached {hash : Hash} {entry : MetaCacheEntry} {fileMeta : FileMeta}
    (cached : entry.cached = some fileMeta) :
    firstListed hash entry = fileMeta.versions.find? listed := by
  rw [firstListed, MetaCacheEntry.fileMeta, cached]
  rfl

/-- The two answers: present together, with the same version on top. -/
def Alike (hash : Hash) (general : Option MetaCacheEntry) : ListingEntryResolution → Prop
  | .resolved entry =>
    ∃ other, general = some other ∧ firstListed hash entry = firstListed hash other
  | .rejected => general = none
  | .needsSupplement _ fallback =>
    general = none ∧ fallback = none ∨
      ∃ entry other, fallback = some entry ∧ general = some other ∧
        firstListed hash entry = firstListed hash other

def ListingEntryResolution.shown : ListingEntryResolution → Option MetaCacheEntry
  | .resolved entry => some entry
  | .needsSupplement _ fallback => fallback
  | .rejected => none

theorem alike_iff {hash : Hash} {general : Option MetaCacheEntry}
    {resolution : ListingEntryResolution} :
    Alike hash general resolution ↔
      resolution.shown.map (firstListed hash) = general.map (firstListed hash) := by
  cases resolution with
  | resolved entry | rejected => cases general <;> simp [Alike, ListingEntryResolution.shown]
  | needsSupplement entry fallback =>
    cases general <;> cases fallback <;> simp [Alike, ListingEntryResolution.shown]

def topOf (versions : List FileMetaShallowVersion) : Option (Option FileMetaShallowVersion) :=
  if versions.isEmpty then none else some (versions.find? listed)

theorem top_of_filled (filled : versions ≠ []) : topOf versions = some (versions.find? listed) :=
  if_neg (by simpa using filled)

section Answer

variable {hash : Hash} {entry : MetaCacheEntry} {cached : FileMeta} {selection : Selection}

theorem with_selected_versions_top (selected : List FileMetaShallowVersion) :
    firstListed hash (listingEntryWithSelectedVersions hash entry cached selected) =
      selected.find? listed :=
  @first_listed_cached hash _ { cached with versions := selected } rfl

theorem answer_top (isCached : entry.cached = some cached)
    (inside : selection.selectedVersions.Sublist cached.versions)
    (front : selection.firstSelectedIdx = some 0 →
      selection.selectedVersions.head? = cached.versions.head?) :
    (selection.answer hash 1 entry cached).shown.map (firstListed hash) =
      topOf selection.selectedVersions := by
  have whole : selection.selectedVersions.length = cached.versions.length →
      firstListed hash entry = selection.selectedVersions.find? listed := by
    intro lengths
    rw [first_listed_cached isCached, inside.eq_of_length lengths]
  unfold Selection.answer topOf
  by_cases empty : selection.selectedVersions.isEmpty = true
  · split
    all_goals rfl
  split
  · split
    · rename_i lengths
      exact congrArg some (whole lengths)
    · exact congrArg some (with_selected_versions_top _)
  dsimp only
  split
  · rename_i kept
    apply congrArg some
    rw [or_eq_true, decide_eq_true_iff] at kept
    rcases kept with latest | lengths
    · rw [and_eq_true, and_eq_true, decide_eq_true_iff] at latest
      obtain ⟨⟨isFirst, _⟩, isListed⟩ := latest
      have same := front isFirst
      rw [first_listed_cached isCached]
      cases onTop : selection.selectedVersions with
      | nil => simp [onTop] at empty
      | cons version rest =>
        rw [onTop] at isListed same
        have top : listed version = true := isListed
        obtain ⟨others, split⟩ := head?_eq_some_iff.1 same.symm
        rw [split, find?_cons_of_pos top, find?_cons_of_pos top]
    · exact whole lengths
  · exact congrArg some (with_selected_versions_top _)

end Answer

section Shortcut

variable {hash : Hash} {payloadQuorum : Bytes → Option Nat} {entry : MetaCacheEntry}
  {readerDisks : Nat} {resolver : MetadataResolutionParams} {cached : FileMeta}
  {filled : MetaCacheEntry}

theorem xl_meta_cached (readable : entry.xlMeta hash = .ok (cached, filled)) :
    filled = { entry with cached := some cached } := by
  unfold MetaCacheEntry.xlMeta at readable
  split at readable
  · cases readable
  split at readable
  · rename_i fileMeta isCached
    cases readable
    rw [← isCached]
  split at readable
  · cases readable
  split at readable
  · cases readable
    rfl
  · cases readable

theorem resolve_agreed_top (file : entry.isDir = false) (quorum : resolver.objQuorum ≤ readerDisks)
    (one : resolver.requestedVersions = 1) (readable : entry.xlMeta hash = .ok (cached, filled)) :
    (resolveAgreedListingEntry hash payloadQuorum entry readerDisks resolver true).shown.map
        (firstListed hash) =
      topOf (chosen (requiredQuorum payloadQuorum resolver) readerDisks cached.versions) := by
  let required := requiredQuorum payloadQuorum resolver
  have selected : (selectVersions required readerDisks 1 0 .start cached.versions).selectedVersions =
      chosen required readerDisks cached.versions :=
    select_versions_chosen cached.versions 0 .start rfl
  have front : (selectVersions required readerDisks 1 0 .start cached.versions).firstSelectedIdx =
      some 0 → (chosen required readerDisks cached.versions).head? = cached.versions.head? := by
    intro isFirst
    obtain ⟨version, rest, split, reached⟩ := first_version_reached isFirst
    rw [split]
    cases isListed : listed version with
    | true =>
      rw [chosen_listed reached isListed]
      rfl
    | false =>
      rw [chosen_free reached isListed]
      rfl
  have isCached : filled.cached = some cached := by rw [xl_meta_cached readable]
  have top := @answer_top hash _ _ _ isCached (selected ▸ chosen_sublist cached.versions)
    (selected.symm ▸ front)
  rw [selected] at top
  unfold resolveAgreedListingEntry
  rw [if_neg (by simp), file, if_neg Bool.false_ne_true, if_neg (Nat.not_lt.2 quorum), readable]
  rw [one]
  exact top

theorem resolve_agreed_unreadable {error : Error} (file : entry.isDir = false)
    (quorum : resolver.objQuorum ≤ readerDisks) (unreadable : entry.xlMeta hash = .error error) :
    (resolveAgreedListingEntry hash payloadQuorum entry readerDisks resolver true).shown =
      if resolver.objQuorum ≤ 1 then some entry else none := by
  unfold resolveAgreedListingEntry
  rw [if_neg (by simp), file, if_neg Bool.false_ne_true, if_neg (Nat.not_lt.2 quorum), unreadable]
  dsimp only
  split
  all_goals rfl

end Shortcut

theorem top_of_join (versions : List FileMetaShallowVersion) :
    (topOf versions).join = versions.find? listed := by
  cases versions with
  | nil => rfl
  | cons version rest => rfl

/-- What the merge keeps: as the selection, and everything behind the first listed version. -/
def survivors (required : FileMetaShallowVersion → Nat) (readerDisks : Nat) :
    List FileMetaShallowVersion → List FileMetaShallowVersion
  | [] => []
  | version :: rest =>
    if readerDisks < required version then survivors required readerDisks rest
    else if listed version then version :: rest
    else version :: survivors required readerDisks rest

theorem survivors_top (required : FileMetaShallowVersion → Nat) (readerDisks : Nat)
    (versions : List FileMetaShallowVersion) :
    topOf (survivors required readerDisks versions) = topOf (chosen required readerDisks versions) := by
  induction versions with
  | nil => rfl
  | cons version rest ih =>
    rw [survivors, chosen]
    split
    · exact ih
    split
    · rename_i isListed
      rw [top_of_filled (cons_ne_nil _ _), top_of_filled (cons_ne_nil _ _),
        find?_cons_of_pos isListed, find?_cons_of_pos isListed]
    · rename_i free
      rw [top_of_filled (cons_ne_nil _ _), top_of_filled (cons_ne_nil _ _),
        find?_cons_of_neg free, find?_cons_of_neg free, ← top_of_join, ih, top_of_join]

section Merge

variable {config : MergeConfig} {order : VoteOrder} {version : FileMetaShallowVersion}
  {rest merged : List FileMetaShallowVersion}

theorem collect_tops_copies (copies : Nat) :
    collectTops (List.replicate (copies + 1) (version :: rest)) =
      ⟨List.replicate (copies + 1) version, version.header, true⟩ := by
  induction copies with
  | zero => rfl
  | succ copies ih =>
    have grown : List.replicate (copies + 1 + 1) version =
        List.replicate (copies + 1) version ++ [version] := replicate_succ'
    unfold collectTops at ih ⊢
    rw [replicate_succ', foldl_append, ih, grown]
    simp [TopScan.visit]

theorem round_winner_copies (strict : Bool) (enumerate : Votes → Votes) (copies : Nat) :
    roundWinner strict enumerate (List.replicate (copies + 1) (version :: rest)) =
      ⟨version, copies + 1⟩ := by
  unfold roundWinner
  rw [collect_tops_copies]
  simp [replicate_succ]

theorem remove_selected_copies (copies : Nat) :
    (List.replicate copies (version :: rest)).map (removeSelected version merged) =
      List.replicate copies rest := by
  have own : removable version merged version = true := by simp [removable]
  rw [map_replicate, removeSelected, eraseP_cons_of_pos own]

theorem merge_round_copies (enumerate : Votes → Votes) (one : config.requestedVersions = 1)
    {copies : Nat} (quorum : config.quorum ≤ copies + 1) :
    mergeRound config enumerate ⟨List.replicate (copies + 1) (version :: rest), merged, 0⟩ =
      if copies + 1 < config.requiredQuorum version then
        .next ⟨List.replicate (copies + 1) rest, merged, 0⟩
      else if listed version then .finished (merged ++ (version :: rest))
      else .next ⟨List.replicate (copies + 1) rest, merged ++ [version], 0⟩ := by
  unfold mergeRound
  rw [collect_tops_copies, if_neg (by simpa using quorum), round_winner_copies, one]
  unfold roundState roundMerged roundNVersions
  by_cases short : copies + 1 < config.requiredQuorum version
  · rw [if_neg (Nat.not_le.2 short), if_pos short, remove_selected_copies]
    simp [Nat.not_le.2 short]
  · have reached := Nat.not_lt.1 short
    rw [if_pos reached, if_neg short, remove_selected_copies]
    cases isFree : version.header.freeVersion with
    | true => simp [listed, isFree]
    | false => simp [listed, isFree, reached, replicate_succ]

theorem merge_loop_copies (one : config.requestedVersions = 1) {copies : Nat}
    (positive : 0 < config.quorum) (quorum : config.quorum ≤ copies + 1)
    (versions : List FileMetaShallowVersion) (fuel round : Nat) (enough : versions.length < fuel)
    (merged : List FileMetaShallowVersion) :
    mergeLoop config order fuel round ⟨List.replicate (copies + 1) versions, merged, 0⟩ =
      some (merged ++ survivors config.requiredQuorum (copies + 1) versions) := by
  induction versions generalizing fuel round merged with
  | nil =>
    cases fuel with
    | zero => cases enough
    | succ fuel =>
      have vacant : topsOf (List.replicate (copies + 1) ([] : List FileMetaShallowVersion)) = [] := by
        simp [topsOf]
      rw [mergeLoop, mergeRound, if_pos (by rw [collect_tops_eq, vacant]; exact positive)]
      simp [survivors]
  | cons version rest ih =>
    cases fuel with
    | zero => cases enough
    | succ fuel =>
      have fewer : rest.length < fuel := Nat.lt_of_succ_lt_succ enough
      rw [mergeLoop, merge_round_copies _ one quorum, survivors]
      by_cases short : copies + 1 < config.requiredQuorum version
      · rw [if_pos short, if_pos short]
        exact ih fuel (round + 1) fewer merged
      rw [if_neg short, if_neg short]
      cases isListed : listed version with
      | true => rfl
      | false =>
        have others := ih fuel (round + 1) fewer (merged ++ [version])
        rw [append_assoc] at others
        exact others

end Merge

section Copies

variable {hash : Hash} {payloadQuorum : Bytes → Option Nat} {order : VoteOrder}
  {entry filled : MetaCacheEntry} {cached : FileMeta} {resolver : MetadataResolutionParams}
  {copies : Nat}

theorem matches_itself (strict : Bool) (file : filled.isDir = false)
    (isCached : filled.cached = some cached) :
    filled.matchesEntry hash (some filled) strict = (some filled, true) := by
  rw [MetaCacheEntry.matchesEntry, if_neg (not_not.2 rfl), file]
  simp only [Bool.or_self, false_eq_true, if_false, MetaCacheEntry.fileMeta, isCached,
    MetaCacheEntry.matchFileMeta, ne_eq, not_true_eq_false]
  exact match_same_versions strict _ _ cached.versions

theorem examine_readable (strict : Bool) (state : Resolution) (named : entry.name.isEmpty = false)
    (file : entry.isDir = false) (readable : entry.xlMeta hash = .ok (cached, filled)) :
    state.examine hash strict entry = state.reconcile hash strict cached filled := by
  rw [Resolution.examine, named, file, readable]
  rfl

theorem examine_copies (strict : Bool) (named : entry.name.isEmpty = false)
    (file : entry.isDir = false) (readable : entry.xlMeta hash = .ok (cached, filled))
    (copies : Nat) :
    (List.replicate (copies + 1) entry).foldl (Resolution.examine hash strict) .start =
      ⟨0, some filled, copies + 1, copies + 1, List.replicate (copies + 1) cached.versions⟩ := by
  have isFilled := xl_meta_cached readable
  have filledFile : filled.isDir = false := by
    rw [isFilled]
    exact file
  induction copies with
  | zero =>
    rw [replicate_one, foldl_cons, examine_readable strict _ named file readable]
    rfl
  | succ copies ih =>
    have grown : List.replicate (copies + 1 + 1) cached.versions =
        List.replicate (copies + 1) cached.versions ++ [cached.versions] := replicate_succ'
    rw [replicate_succ', foldl_append, ih, foldl_cons, foldl_nil,
      examine_readable strict _ named file readable, Resolution.reconcile]
    dsimp only
    rw [matches_itself strict filledFile (by rw [isFilled]), grown]

theorem examine_skipped (strict : Bool) (copies : Nat) (file : entry.isDir = false)
    (skipped : entry.name.isEmpty = true ∨ ∃ error, entry.xlMeta hash = .error error) :
    (List.replicate copies entry).foldl (Resolution.examine hash strict) .start = .start := by
  have same : ∀ state : Resolution, state.examine hash strict entry = state := by
    intro state
    rw [Resolution.examine]
    split
    · rfl
    · rename_i named
      obtain ⟨error, unreadable⟩ := skipped.resolve_left named
      rw [file, unreadable]
      rfl
  induction copies with
  | zero => rfl
  | succ copies ih => rw [replicate_succ, foldl_cons, same, ih]

theorem present_copies (copies : Nat) :
    (List.replicate copies (some entry)).filterMap id = List.replicate copies entry :=
  filterMap_replicate_of_some rfl

theorem resolve_skipped (copies : Nat) (file : entry.isDir = false)
    (skipped : entry.name.isEmpty = true ∨ ∃ error, entry.xlMeta hash = .error error) :
    resolveInner hash payloadQuorum order resolver true (List.replicate copies (some entry)) = none := by
  unfold resolveInner
  rw [present_copies, examine_skipped resolver.strict copies file skipped]
  split
  all_goals rfl

theorem resolve_copies (named : entry.name.isEmpty = false)
    (file : entry.isDir = false) (readable : entry.xlMeta hash = .ok (cached, filled))
    (quorum : resolver.objQuorum ≤ copies + 1) :
    resolveInner hash payloadQuorum order resolver true (List.replicate (copies + 1) (some entry)) =
      if agreementQuorum payloadQuorum resolver true filled ≤ copies + 1 then some filled
      else mergeSelected hash payloadQuorum order resolver true
        (List.replicate (copies + 1) cached.versions) filled := by
  have filledFile : filled.isDir = false := by
    rw [xl_meta_cached readable]
    exact file
  unfold resolveInner
  rw [if_neg (by simp [replicate_succ]), present_copies,
    examine_copies resolver.strict named file readable]
  dsimp only
  rw [filledFile, Bool.false_and, if_neg Bool.false_ne_true, if_neg (Nat.not_lt.2 quorum),
    decide_eq_true rfl, Bool.true_and]
  simp only [decide_eq_true_iff]

theorem merge_selected_top (isCached : filled.cached = some cached)
    (merged : mergeCandidates payloadQuorum order resolver true
      (List.replicate (copies + 1) cached.versions) = some versions) :
    (mergeSelected hash payloadQuorum order resolver true
      (List.replicate (copies + 1) cached.versions) filled).map (firstListed hash) =
      topOf versions := by
  unfold mergeSelected
  rw [isCached]
  rw [merged]
  dsimp only
  unfold topOf
  split
  · rfl
  · exact congrArg some (@first_listed_cached hash _
      { FileMeta.default with metaVer := cached.metaVer, versions } rfl)

theorem merge_candidates_copies (positive : 1 ≤ resolver.objQuorum)
    (one : resolver.requestedVersions = 1) {copies : Nat}
    (quorum : resolver.objQuorum ≤ copies + 1) {first : FileMetaShallowVersion}
    {rest : List FileMetaShallowVersion}
    (short : copies + 1 < requiredQuorum payloadQuorum resolver first) :
    mergeCandidates payloadQuorum order resolver true
        (List.replicate (copies + 1) (first :: rest)) =
      some (if copies = 0 then []
        else survivors (requiredQuorum payloadQuorum resolver) (copies + 1) (first :: rest)) := by
  have configured : mergeConfig payloadQuorum resolver.objQuorum resolver.strict 1 true
      resolver.writeQuorumSlack = ⟨resolver.objQuorum,
        (if resolver.objQuorum = 1 then true else resolver.strict), 1,
        requiredQuorum payloadQuorum resolver⟩ := by
    unfold mergeConfig
    rw [if_neg (Nat.pos_iff_ne_zero.1 positive)]
    rfl
  unfold mergeCandidates mergeFileMetaVersionsInner
  rw [if_pos rfl, one, configured]
  rw [length_replicate, if_neg (by simp [replicate_succ, Nat.not_lt.2 quorum])]
  cases copies with
  | zero =>
    have missing : ¬ requiredQuorum payloadQuorum resolver first ≤ 1 := Nat.not_le.2 short
    simp [missing]
  | succ copies =>
    have enough : (first :: rest).length <
        totalEntries (List.replicate (copies + 1 + 1) (first :: rest)) + 1 := by
      unfold totalEntries
      rw [replicate_succ, map_cons, sum_cons]
      omega
    exact @merge_loop_copies ⟨resolver.objQuorum, _, 1, _⟩ order rfl (copies + 1) positive quorum
      (first :: rest) _ 0 enough []

theorem resolve_copies_top (named : entry.name.isEmpty = false) (file : entry.isDir = false)
    (readable : entry.xlMeta hash = .ok (cached, filled)) (positive : 1 ≤ resolver.objQuorum)
    (one : resolver.requestedVersions = 1)
    (quorum : resolver.objQuorum ≤ copies + 1) {first : FileMetaShallowVersion}
    {rest : List FileMetaShallowVersion} (versions : cached.versions = first :: rest) :
    (resolveInner hash payloadQuorum order resolver true
      (List.replicate (copies + 1) (some entry))).map (firstListed hash) =
      if requiredQuorum payloadQuorum resolver first ≤ copies + 1 then
        some (cached.versions.find? listed)
      else if copies = 0 then none
      else topOf (chosen (requiredQuorum payloadQuorum resolver) (copies + 1) cached.versions) := by
  have isCached : filled.cached = some cached := by rw [xl_meta_cached readable]
  have asked : agreementQuorum payloadQuorum resolver true filled =
      requiredQuorum payloadQuorum resolver first := by
    unfold agreementQuorum
    rw [if_pos rfl, isCached, bind_some, versions]
    rfl
  rw [resolve_copies named file readable quorum, asked]
  by_cases reached : requiredQuorum payloadQuorum resolver first ≤ copies + 1
  · rw [if_pos reached, if_pos reached, map_some, first_listed_cached isCached]
  · rw [if_neg reached, if_neg reached]
    have merged := @merge_candidates_copies payloadQuorum order resolver positive one copies quorum
      first rest (Nat.lt_of_not_le reached)
    rw [← versions] at merged
    rw [merge_selected_top isCached merged]
    split
    · rfl
    · exact survivors_top _ _ _

theorem resolve_copies_unversioned (named : entry.name.isEmpty = false)
    (file : entry.isDir = false) (readable : entry.xlMeta hash = .ok (cached, filled))
    (quorum : resolver.objQuorum ≤ copies + 1) (versions : cached.versions = []) :
    resolveInner hash payloadQuorum order resolver true (List.replicate (copies + 1) (some entry)) =
      some filled := by
  have isCached : filled.cached = some cached := by rw [xl_meta_cached readable]
  have asked : agreementQuorum payloadQuorum resolver true filled = resolver.objQuorum := by
    unfold agreementQuorum
    rw [if_pos rfl, isCached, bind_some, versions]
    rfl
  rw [resolve_copies named file readable quorum, asked, if_pos quorum]

end Copies

theorem find_and_of_found {α : Type} {p q : α → Bool} {items : List α}
    (found : ∀ item ∈ items.find? q, p item = true) :
    (items.find? fun item => p item && q item) = items.find? q := by
  induction items with
  | nil => rfl
  | cons item items ih =>
    cases isFound : q item with
    | true =>
      rw [find?_cons_of_pos isFound] at found ⊢
      rw [find?_cons_of_pos (by simp [isFound, found item rfl])]
    | false =>
      rw [find?_cons_of_neg (by simp [isFound])] at found ⊢
      rw [find?_cons_of_neg (by simp [isFound])]
      exact ih found

/-- The copies of an entry are settled by the two ways alike. A name that is empty is passed over
by the general way, as is an entry that cannot be read; with one drive it takes the entry whole. -/
def SettledAlike (hash : Hash) (payloadQuorum : Bytes → Option Nat) (entry : MetaCacheEntry)
    (readerDisks : Nat) (resolver : MetadataResolutionParams) : Prop :=
  match entry.xlMeta hash with
  | .error _ => 1 < resolver.objQuorum
  | .ok (cached, _) =>
    let short := ∀ version ∈ cached.versions,
      readerDisks < requiredQuorum payloadQuorum resolver version
    if entry.name.isEmpty then short
    else cached.versions ≠ [] ∧ (2 ≤ readerDisks ∨ short ∨
      ∃ first ∈ cached.versions.head?, requiredQuorum payloadQuorum resolver first ≤ readerDisks)

/-- Drives that are enough for the first version are enough for the first one that is listed. The
general resolution asks for the former alone. -/
def FirstListedCovered (hash : Hash) (payloadQuorum : Bytes → Option Nat) (entry : MetaCacheEntry)
    (readerDisks : Nat) (resolver : MetadataResolutionParams) : Prop :=
  ∀ cached filled, entry.xlMeta hash = .ok (cached, filled) →
    ∀ first ∈ cached.versions.head?, ∀ top ∈ cached.versions.find? listed,
      requiredQuorum payloadQuorum resolver first ≤ readerDisks →
        requiredQuorum payloadQuorum resolver top ≤ readerDisks

section Alike

variable {hash : Hash} {payloadQuorum : Bytes → Option Nat} {order : VoteOrder}
  {entry filled : MetaCacheEntry} {cached : FileMeta} {copies : Nat}
  {resolver : MetadataResolutionParams}

theorem top_of_eq_none_iff : topOf versions = none ↔ versions = [] := by
  cases versions with
  | nil => simp [topOf]
  | cons version rest => simp [topOf]

theorem nameless_alike (file : entry.isDir = false) (quorum : resolver.objQuorum ≤ copies + 1)
    (one : resolver.requestedVersions = 1) (readable : entry.xlMeta hash = .ok (cached, filled))
    (nameless : entry.name.isEmpty = true) :
    Alike hash
        (resolveInner hash payloadQuorum order resolver true
          (List.replicate (copies + 1) (some entry)))
        (resolveAgreedListingEntry hash payloadQuorum entry (copies + 1) resolver true) ↔
      ∀ version ∈ cached.versions, copies + 1 < requiredQuorum payloadQuorum resolver version := by
  rw [alike_iff, resolve_agreed_top file quorum one readable,
    resolve_skipped (copies + 1) file (.inl nameless), map_none, top_of_eq_none_iff,
    chosen_eq_nil_iff]

theorem named_alike (file : entry.isDir = false) (positive : 1 ≤ resolver.objQuorum)
    (quorum : resolver.objQuorum ≤ copies + 1) (one : resolver.requestedVersions = 1)
    (readable : entry.xlMeta hash = .ok (cached, filled)) (named : entry.name.isEmpty = false)
    (covered : FirstListedCovered hash payloadQuorum entry (copies + 1) resolver) :
    Alike hash
        (resolveInner hash payloadQuorum order resolver true
          (List.replicate (copies + 1) (some entry)))
        (resolveAgreedListingEntry hash payloadQuorum entry (copies + 1) resolver true) ↔
      cached.versions ≠ [] ∧ (2 ≤ copies + 1 ∨
        (∀ version ∈ cached.versions, copies + 1 < requiredQuorum payloadQuorum resolver version) ∨
        ∃ first ∈ cached.versions.head?,
          requiredQuorum payloadQuorum resolver first ≤ copies + 1) := by
  rw [alike_iff, resolve_agreed_top file quorum one readable]
  cases versions : cached.versions with
  | nil =>
    rw [resolve_copies_unversioned named file readable quorum versions]
    exact iff_of_false (by simp [topOf, chosen]) (fun both => both.1 rfl)
  | cons first rest =>
    rw [resolve_copies_top named file readable positive one quorum versions, ← versions]
    have isFirst : first ∈ cached.versions.head? := by
      rw [versions]
      rfl
    by_cases reached : requiredQuorum payloadQuorum resolver first ≤ copies + 1
    · have kept : chosen (requiredQuorum payloadQuorum resolver) (copies + 1) cached.versions ≠ [] := by
        intro empty
        have short := chosen_eq_nil_iff.1 empty first (by simp [versions])
        omega
      have found := find_and_of_found (p := fun version =>
          decide (requiredQuorum payloadQuorum resolver version ≤ copies + 1))
        fun top isTop => decide_eq_true (covered cached filled readable first isFirst top isTop reached)
      rw [if_pos reached, top_of_filled kept, chosen_find, found]
      exact iff_of_true rfl ⟨by simp [versions], .inr (.inr ⟨first, isFirst, reached⟩)⟩
    · rw [if_neg reached]
      have onlyFirst : ¬ ∃ first ∈ cached.versions.head?,
          requiredQuorum payloadQuorum resolver first ≤ copies + 1 := by
        rintro ⟨other, isOther, otherReached⟩
        rw [versions] at isOther
        cases isOther
        exact reached otherReached
      cases copies with
      | zero =>
        rw [if_pos rfl, top_of_eq_none_iff, chosen_eq_nil_iff]
        constructor
        · intro short
          exact ⟨by simp [versions], .inr (.inl short)⟩
        · rintro ⟨_, two | short | someReached⟩
          · omega
          · exact short
          · exact absurd someReached onlyFirst
      | succ copies =>
        exact iff_of_true rfl ⟨by simp [versions], .inl (by omega)⟩

end Alike

/-- The shortcut answers as the resolution of the copies does, in each case that is settled alike.
One version is requested, and the drives of the listing are enough for the quorum. -/
theorem agreed_entry_alike (hash : Hash) (payloadQuorum : Bytes → Option Nat) (order : VoteOrder)
    (entry : MetaCacheEntry) (readerDisks : Nat) (resolver : MetadataResolutionParams)
    (file : entry.isDir = false) (positive : 1 ≤ resolver.objQuorum)
    (quorum : resolver.objQuorum ≤ readerDisks) (one : resolver.requestedVersions = 1)
    (covered : FirstListedCovered hash payloadQuorum entry readerDisks resolver) :
    Alike hash
        (resolveInner hash payloadQuorum order resolver true
          (List.replicate readerDisks (some entry)))
        (resolveAgreedListingEntry hash payloadQuorum entry readerDisks resolver true) ↔
      SettledAlike hash payloadQuorum entry readerDisks resolver := by
  obtain ⟨copies, rfl⟩ : ∃ copies, readerDisks = copies + 1 := ⟨readerDisks - 1, by omega⟩
  unfold SettledAlike
  cases read : entry.xlMeta hash with
  | error error =>
    rw [alike_iff, resolve_agreed_unreadable file quorum read,
      resolve_skipped (copies + 1) file (.inr ⟨error, read⟩)]
    split
    · rename_i single
      exact iff_of_false (by simp) (Nat.not_lt.2 single)
    · rename_i several
      exact iff_of_true rfl (Nat.lt_of_not_le several)
  | ok found =>
    cases named : entry.name.isEmpty with
    | true =>
      exact nameless_alike file quorum one read named
    | false =>
      exact named_alike file positive quorum one read named covered

/-- Bytes that are no `xl.meta`. -/
def damagedEntry : MetaCacheEntry := ⟨"object", [0], none, false⟩

def stackVersion (id : Uuid) (versionType : VersionType) (flags : UInt8) (parity data : UInt8) :
    FileMetaShallowVersion where
  header :=
    { versionId := some id
      modTime := none
      signature := 0
      versionType
      flags
      ecN := parity
      ecM := data }
  metaBytes := []

/-- A free version above an object that five of eight drives have to carry. -/
def stackedFile : FileMeta :=
  ⟨[stackVersion 9 .delete 1 0 0, stackVersion 8 .object 0 4 4], [], 3⟩

def stackedEntry : MetaCacheEntry :=
  ⟨"object", stackedFile.marshalMsg xxh64Hash, some stackedFile, false⟩

theorem stacked_readable : stackedEntry.xlMeta xxh64Hash = .ok (stackedFile, stackedEntry) := rfl

/-- With an object quorum of one the shortcut lists what cannot be read. On two drives the copies
of the stack agree on its free version and are taken whole, and the shortcut leaves out the object
below it. -/
theorem agreed_entry_unlike :
    (¬ ∀ (hash : Hash) (payloadQuorum : Bytes → Option Nat) (order : VoteOrder)
      (entry : MetaCacheEntry) (readerDisks : Nat) (resolver : MetadataResolutionParams),
      entry.isObject = true → 1 ≤ resolver.objQuorum → resolver.objQuorum ≤ readerDisks →
      resolver.requestedVersions = 1 →
      Alike hash
        (resolveInner hash payloadQuorum order resolver true
          (List.replicate readerDisks (some entry)))
        (resolveAgreedListingEntry hash payloadQuorum entry readerDisks resolver true)) ∧
    ¬ Alike xxh64Hash
      (resolveInner xxh64Hash (fun _ => none) .fixed ⟨2, 2, 1, false, 0⟩ true
        (List.replicate 2 (some stackedEntry)))
      (resolveAgreedListingEntry xxh64Hash (fun _ => none) stackedEntry 2 ⟨2, 2, 1, false, 0⟩ true) := by
  constructor
  · intro claim
    have alike := claim xxh64Hash (fun _ => none) .fixed damagedEntry 1 ⟨1, 1, 1, false, 0⟩
      (by decide) (by decide) (by decide) rfl
    rw [alike_iff] at alike
    exact absurd alike (by decide)
  · rw [alike_iff, resolve_agreed_top rfl (by decide) rfl stacked_readable,
      resolve_copies_top (by decide) rfl stacked_readable (by decide) rfl (by decide) rfl]
    decide

/-- On five drives both versions have their quorum. -/
theorem stacked_entry_alike :
    SettledAlike xxh64Hash (fun _ => none) stackedEntry 5 ⟨5, 5, 1, false, 0⟩ ∧
    Alike xxh64Hash
      (resolveInner xxh64Hash (fun _ => none) .fixed ⟨5, 5, 1, false, 0⟩ true
        (List.replicate 5 (some stackedEntry)))
      (resolveAgreedListingEntry xxh64Hash (fun _ => none) stackedEntry 5 ⟨5, 5, 1, false, 0⟩ true) := by
  have settled : SettledAlike xxh64Hash (fun _ => none) stackedEntry 5 ⟨5, 5, 1, false, 0⟩ := by
    unfold SettledAlike
    rw [stacked_readable]
    dsimp only
    rw [if_neg (by decide)]
    exact ⟨by decide, .inl (by decide)⟩
  have covered : FirstListedCovered xxh64Hash (fun _ => none) stackedEntry 5 ⟨5, 5, 1, false, 0⟩ := by
    intro cached filled readable first _ top isTop _
    have same := (Prod.mk.inj (Except.ok.inj (stacked_readable.symm.trans readable))).1
    have small : ∀ version ∈ stackedFile.versions,
        requiredQuorum (fun _ => none) ⟨5, 5, 1, false, 0⟩ version ≤ 5 := by decide
    rw [← same] at isTop
    exact small top (mem_of_find?_eq_some isTop)
  have alike := agreed_entry_alike xxh64Hash (fun _ => none) .fixed stackedEntry 5
    ⟨5, 5, 1, false, 0⟩ rfl (by decide) (by decide) rfl covered
  exact ⟨settled, alike.2 settled⟩

end Rustfs.Ecstore.AgreedEntry
