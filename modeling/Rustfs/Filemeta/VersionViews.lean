import Rustfs.Filemeta.StorableVersion
import Mathlib.Data.List.TakeWhile

/-!
# Views of a version list

`into_fileinfo` selects one version, `get_file_info_versions` lists them all. Each
numbers and chains the versions on its own. Reading the payload of a version is not part
of a view.
-/

namespace Rustfs.Filemeta

open Library Library.MessagePack Utils List Bool Library.Outcome FileMeta

structure FileInfoDecodeOptions where
  readData : Bool
  includeFreeVersions : Bool
  allParts : Bool
  includePartChecksums : Bool

/-- A nil selector denotes the null version under both of its spellings. -/
def matchesVersion (vid : Uuid) (actual : Option Uuid) : Bool :=
  if vid.isNil then actual.all Uuid.isNil else actual = some vid

def FileInfo.isRemote (env : Runtime) (fi : FileInfo) : Bool :=
  fi.transitionStatus = transitionComplete && !isRestoredObjectOnDisk env fi.metadata

def FileInfo.inlineData (env : Runtime) (fi : FileInfo) : Bool :=
  containsKeyStr fi.metadata suffixInlineData && !fi.isRemote env

structure SelectScan where
  isLatest : Bool
  succModTime : Option OffsetDateTime
  nonFreeVersions : Nat
  foundFreeVersion : Option FileInfo
  foundFi : Option FileInfo

def SelectScan.outcome (opts : FileInfoDecodeOptions) (selector : Option Uuid) (scan : SelectScan) :
    Except Error FileInfo :=
  match scan.foundFi with
  | some fi => .ok { fi with numVersions := scan.nonFreeVersions }
  | none =>
    if selector.isSome then .error .fileVersionNotFound
    else
      match scan.foundFreeVersion with
      | some freeVersion =>
        if opts.includeFreeVersions && scan.nonFreeVersions = 0 then .ok freeVersion
        else .error .fileNotFound
      | none => .error .fileNotFound

namespace FileMeta

variable (env : Runtime) (fm : FileMeta) (volume path : String)

def readFreeVersion (opts : FileInfoDecodeOptions) (version : FileMetaShallowVersion) :
    Option FileInfo :=
  match version.parseVersionMeta env with
  | .error _ => none
  | .ok body =>
    if body.versionType = .invalid then none
    else
      match body.toFileinfo env volume path opts.allParts opts.includePartChecksums with
      | .ok fi => some { fi with isLatest := true }
      | .error _ => none

def countFreeVersion (opts : FileInfoDecodeOptions) (scan : SelectScan)
    (version : FileMetaShallowVersion) : SelectScan :=
  { scan with
    nonFreeVersions := scan.nonFreeVersions - 1
    foundFreeVersion :=
      if opts.includeFreeVersions then
        scan.foundFreeVersion.or (readFreeVersion env volume path opts version)
      else scan.foundFreeVersion }

def fillData (readData : Bool) (fi : FileInfo) : Except Error FileInfo :=
  if readData && fi.inlineData env then
    (fm.findInlineDataForVersion fi.versionId).map fun data => { fi with data := data }
  else .ok fi

def selectEntry (opts : FileInfoDecodeOptions) (scan : SelectScan)
    (version : FileMetaShallowVersion) : Except Error SelectScan := do
  let fi ← version.toFileinfo env volume path opts.allParts opts.includePartChecksums
  let placed := { fi with
    isLatest := scan.isLatest
    successorModTime := scan.succModTime.or fi.successorModTime }
  let filled ← fm.fillData env opts.readData placed
  pure { scan with foundFi := some filled }

/-- One turn of the loop; `selector` is none for an empty version id. -/
def selectStep (opts : FileInfoDecodeOptions) (selector : Option Uuid) (scan : SelectScan)
    (version : FileMetaShallowVersion) : Except Error SelectScan :=
  let selected := matchesVersion (selector.getD Uuid.nil) version.header.versionId
  let counted := if version.header.freeVersion then
      countFreeVersion env volume path opts scan version
    else scan
  if version.header.freeVersion && !selected then .ok counted
  else if counted.foundFi.isSome then .ok counted
  else if selector.isSome && !selected then
    .ok { counted with isLatest := false, succModTime := version.header.modTime }
  else selectEntry env fm volume path opts counted version

def selectVersion (opts : FileInfoDecodeOptions) (selector : Option Uuid) :
    Except Error FileInfo := do
  let scan ← fm.versions.foldlM (selectStep env fm volume path opts selector)
    ⟨true, none, fm.versions.length, none, none⟩
  scan.outcome opts selector

def selectorOf (versionId : String) : Except Error (Option Uuid) :=
  if versionId.isEmpty then .ok none else (MetaObject.parseUuidOr env versionId).map some

/-- `to_fileinfo_with_part_checksums`. -/
def toFileinfo (versionId : String) (opts : FileInfoDecodeOptions) : Except Error FileInfo := do
  let selector ← selectorOf env versionId
  fm.selectVersion env volume path opts selector

def intoFileinfo (versionId : String) (readData includeFreeVersions allParts : Bool) :
    Except Error FileInfo :=
  fm.toFileinfo env volume path versionId ⟨readData, includeFreeVersions, allParts, true⟩

end FileMeta

structure FileInfoVersions where
  volume : String
  name : String
  latestModTime : Option OffsetDateTime
  versions : List FileInfo
  freeVersions : List FileInfo

def chainVersions (num : Nat) : (first : Bool) → (prevModTime : Option OffsetDateTime) →
    List FileInfo → List FileInfo
  | _, _, [] => []
  | first, prevModTime, fi :: rest =>
    let placed := if first then { fi with isLatest := true }
      else { fi with successorModTime := prevModTime }
    { placed with numVersions := num } :: chainVersions num false fi.modTime rest

namespace FileMeta

variable (env : Runtime) (fm : FileMeta) (volume path : String)

/-- An empty list shows one deleted version. -/
def intoFileInfoVersions (allParts : Bool) : Except Error FileInfoVersions := do
  let infos ← fm.versions.mapM fun version => version.toFileinfo env volume path allParts true
  let chained := chainVersions infos.length true none infos
  let versions := if chained.isEmpty then
      [{ FileInfo.default with volume := volume, name := path, deleted := true, isLatest := true }]
    else chained
  pure
    { volume := volume
      name := path
      latestModTime := versions.head?.bind FileInfo.modTime
      versions := versions
      freeVersions := [] }

def getFileInfoVersions (includeFreeVersions : Bool) : Except Error FileInfoVersions := do
  let all ← fm.intoFileInfoVersions env volume path true
  if includeFreeVersions then pure all
  else
    let shown := all.versions.filter fun fi => !fi.tierFreeVersion
    let number (fi : FileInfo) : FileInfo := { fi with numVersions := shown.length }
    pure { all with
      versions := shown.map number
      freeVersions := (all.freeVersions ++
        all.versions.filter FileInfo.tierFreeVersion).map number }

end FileMeta

/-- A decoded body carries no placement of its own. -/
def FileInfo.Unplaced (fi : FileInfo) : Prop := fi.isLatest = false ∧ fi.successorModTime = none

variable {env : Runtime} {allParts withChecksums : Bool} {volume path : String} {result : FileInfo}
  {version : FileMetaShallowVersion} {id : Uuid} {info : FileInfo} {i : Nat}

theorem hydrate_unplaced {fi result : FileInfo} (plain : fi.Unplaced)
    (done : fi.hydrateDataMovementPartChecksums env = .ok result) : result.Unplaced := by
  unfold FileInfo.hydrateDataMovementPartChecksums at done
  split at done
  · cases done
    exact plain
  · split at done
    · cases done
    · simp only at done
      split at done
      · cases done
      · obtain ⟨state, _, rfl⟩ := map_eq_ok.1 done
        exact plain

theorem MetaObject.commit_integrity_unplaced {object : MetaObject} {allParts : Bool}
    {fi result : FileInfo} (plain : fi.Unplaced)
    (done : object.commitIntegrity env allParts fi = .ok result) : result.Unplaced := by
  obtain ⟨descriptor, _, continued⟩ := bind_eq_ok.1 done
  cases descriptor with
  | none =>
    cases continued
    exact plain
  | some commitments =>
    obtain ⟨layout, _, checked⟩ := bind_eq_ok.1 continued
    obtain ⟨_, _, ⟨⟩⟩ := bind_eq_ok.1 checked
    split <;> exact plain

theorem MetaObject.to_fileinfo_unplaced {object : MetaObject}
    (done : object.toFileinfo env volume path allParts withChecksums = .ok result) :
    result.Unplaced := by
  obtain ⟨derived, _, readParts⟩ := bind_eq_ok.1 done
  obtain ⟨parts, _, readPlain⟩ := bind_eq_ok.1 readParts
  obtain ⟨plain, built, hydrate⟩ := bind_eq_ok.1 readPlain
  have unplaced : plain.Unplaced := by
    obtain ⟨version, _, ⟨⟩⟩ := bind_eq_ok.1 built
    exact ⟨rfl, rfl⟩
  obtain ⟨hydrated, hydration, commit⟩ := bind_eq_ok.1 hydrate
  have stillUnplaced : hydrated.Unplaced := by
    unfold FileInfo.hydrateIf at hydration
    split at hydration
    · exact hydrate_unplaced unplaced hydration
    · cases hydration
      exact unplaced
  obtain ⟨_, _, committed⟩ := bind_eq_ok.1 commit
  exact MetaObject.commit_integrity_unplaced stillUnplaced committed

theorem MetaDeleteMarker.into_fileinfo_unplaced {marker : MetaDeleteMarker}
    (done : marker.intoFileinfo env volume path = .ok result) : result.Unplaced := by
  unfold MetaDeleteMarker.intoFileinfo at done
  split at done
  · cases done
    exact ⟨rfl, rfl⟩
  · obtain ⟨derived, _, continued⟩ := bind_eq_ok.1 done
    obtain ⟨version, _, ⟨⟩⟩ := bind_eq_ok.1 continued
    exact ⟨rfl, rfl⟩

theorem FileMetaVersion.body_file_info_unplaced {version : FileMetaVersion}
    (done : version.bodyFileInfo env volume path allParts withChecksums = .ok result) :
    result.Unplaced := by
  unfold FileMetaVersion.bodyFileInfo at done
  split at done
  · split at done <;> cases done <;> exact ⟨rfl, rfl⟩
  · split at done <;> cases done <;> exact ⟨rfl, rfl⟩
  · exact MetaObject.to_fileinfo_unplaced done
  · exact MetaDeleteMarker.into_fileinfo_unplaced done

theorem to_fileinfo_unplaced
    (done : version.toFileinfo env volume path allParts withChecksums = .ok result) :
    result.Unplaced := by
  obtain ⟨body, _, decoded⟩ := bind_eq_ok.1 done
  obtain ⟨fi, read, rfl⟩ := map_eq_ok.1 decoded
  have unplaced := FileMetaVersion.body_file_info_unplaced read
  exact ⟨unplaced.1, unplaced.2⟩

def isShown (version : FileMetaShallowVersion) : Bool := !version.header.freeVersion

def lastShown (entries : List FileMetaShallowVersion) : Option FileMetaShallowVersion :=
  (entries.filter isShown).getLast?

theorem last_shown_cons_free
    (free : version.header.freeVersion = true) (rest : List FileMetaShallowVersion) :
    lastShown (version :: rest) = lastShown rest := by
  rw [lastShown, filter_cons_of_neg (by simp [isShown, free]), lastShown]

theorem last_shown_cons
    (shown : version.header.freeVersion = false) (rest : List FileMetaShallowVersion) :
    lastShown (version :: rest) = some ((lastShown rest).getD version) := by
  rw [lastShown, filter_cons_of_pos (by simp [isShown, shown]), getLast?_cons, lastShown]

theorem matches_version_iff (id : Uuid) (version : FileMetaShallowVersion) :
    matchesVersion id version.header.versionId = true ↔ version.header.denotes = id := by
  unfold matchesVersion FileMetaVersionHeader.denotes
  cases version.header.versionId with
  | none =>
    by_cases null : id = Uuid.nil
    · simp [null, Uuid.isNil]
    · simp [null, Uuid.isNil, Ne.symm null]
  | some given =>
    by_cases null : id = Uuid.nil
    all_goals simp [null, Uuid.isNil]

section SingleView

variable {env : Runtime} {fm : FileMeta} {volume path : String}

/-- The options of both views: no payloads, no free versions, all parts. -/
def viewOptions : FileInfoDecodeOptions := ⟨false, false, true, true⟩

theorem scan_before (before : List FileMetaShallowVersion)
    (others : ∀ version ∈ before, version.header.denotes ≠ id) (scan : SelectScan)
    (searching : scan.foundFi = none) :
    before.foldlM (FileMeta.selectStep env fm volume path viewOptions (some id)) scan =
      .ok { scan with
        isLatest := scan.isLatest && before.all fun version => version.header.freeVersion
        succModTime := ((lastShown before).map fun prior => prior.header.modTime).getD
          scan.succModTime
        nonFreeVersions :=
          scan.nonFreeVersions - before.countP fun version => version.header.freeVersion } := by
  induction before generalizing scan with
  | nil => simp [lastShown, pure, Except.pure]
  | cons version rest ih =>
    have other : matchesVersion id version.header.versionId = false := by
      rw [← not_eq_true, matches_version_iff]
      exact others version mem_cons_self
    have restOthers := fun next member => others next (mem_cons_of_mem _ member)
    rw [foldlM_cons]
    cases free : version.header.freeVersion with
    | true =>
      have step : selectStep env fm volume path viewOptions (some id) scan version =
          .ok { scan with nonFreeVersions := scan.nonFreeVersions - 1 } := by
        simp [selectStep, other, free, countFreeVersion, viewOptions]
      rw [step, ok_bind, ih restOthers]
      · simp [free, last_shown_cons_free free, Nat.sub_sub, Nat.add_comm 1]
      · exact searching
    | false =>
      have step : selectStep env fm volume path viewOptions (some id) scan version =
          .ok { scan with isLatest := false, succModTime := version.header.modTime } := by
        simp [selectStep, other, free, searching]
      rw [step, ok_bind, ih restOthers]
      · rw [last_shown_cons free]
        cases lastShown rest <;> simp [free]
      · exact searching

theorem scan_after {selector : Option Uuid} (after : List FileMetaShallowVersion) (scan : SelectScan)
    (found : scan.foundFi.isSome = true) :
    after.foldlM (FileMeta.selectStep env fm volume path viewOptions selector) scan =
      .ok { scan with
        nonFreeVersions :=
          scan.nonFreeVersions - after.countP fun version => version.header.freeVersion } := by
  induction after generalizing scan with
  | nil => simp [pure, Except.pure]
  | cons version rest ih =>
    rw [foldlM_cons]
    cases free : version.header.freeVersion with
    | true =>
      have step : selectStep env fm volume path viewOptions selector scan version =
          .ok { scan with nonFreeVersions := scan.nonFreeVersions - 1 } := by
        simp [selectStep, free, countFreeVersion, viewOptions, found]
      rw [step, ok_bind, ih]
      · simp [free, Nat.sub_sub, Nat.add_comm 1]
      · exact found
    | false =>
      have step : selectStep env fm volume path viewOptions selector scan version =
          .ok scan := by
        simp [selectStep, free, found]
      rw [step, ok_bind, ih scan found]
      simp [free]

theorem scan_selected {selector : Option Uuid}
    (selects : matchesVersion (selector.getD Uuid.nil) version.header.versionId = true ∨
      selector = none ∧ version.header.freeVersion = false)
    (read : version.toFileinfo env volume path true true = .ok info) (scan : SelectScan)
    (searching : scan.foundFi = none) :
    FileMeta.selectStep env fm volume path viewOptions selector scan version =
      .ok { scan with
        nonFreeVersions := scan.nonFreeVersions - if version.header.freeVersion then 1 else 0
        foundFi := some { info with
          isLatest := scan.isLatest
          successorModTime := scan.succModTime.or info.successorModTime } } := by
  have entry : ∀ counted : SelectScan,
      selectEntry env fm volume path viewOptions counted version =
        .ok { counted with foundFi := some { info with
          isLatest := counted.isLatest
          successorModTime := counted.succModTime.or info.successorModTime } } := by
    intro counted
    rw [selectEntry, viewOptions, read]
    rfl
  rcases selects with named | ⟨rfl, shown⟩
  · cases free : version.header.freeVersion with
    | true =>
      have counted : countFreeVersion env volume path viewOptions scan version =
          { scan with nonFreeVersions := scan.nonFreeVersions - 1 } := by
        simp [countFreeVersion, viewOptions]
      simp [selectStep, named, free, searching, counted, entry]
    | false => simp [selectStep, named, free, searching, entry]
  · simp [selectStep, shown, searching, entry]

theorem count_shown (entries : List FileMetaShallowVersion) :
    entries.length - entries.countP (fun version => version.header.freeVersion) =
      entries.countP isShown := by
  have split : entries.length = _ := length_eq_countP_add_countP
    (fun version : FileMetaShallowVersion => version.header.freeVersion)
  have negated : entries.countP isShown =
      entries.countP fun version => decide ¬ version.header.freeVersion = true := by
    apply countP_congr
    intro version _
    simp [isShown]
  omega

theorem select_version {before after : List FileMetaShallowVersion}
    (split : fm.versions = before ++ version :: after)
    (others : ∀ other ∈ before, other.header.denotes ≠ id) (named : version.header.denotes = id)
    (read : version.toFileinfo env volume path true true = .ok info) :
    fm.selectVersion env volume path viewOptions (some id) =
      .ok { info with
        isLatest := before.all fun other => other.header.freeVersion
        successorModTime := ((lastShown before).bind fun prior => prior.header.modTime).or
          info.successorModTime
        numVersions := fm.versions.countP isShown } := by
  have selects : matchesVersion ((some id).getD Uuid.nil) version.header.versionId = true :=
    (matches_version_iff id version).2 named
  rw [selectVersion, split, foldlM_append, scan_before before others _ rfl, ok_bind,
    foldlM_cons, scan_selected (.inl selects) read _ rfl, ok_bind,
    scan_after after _ rfl, ok_bind, SelectScan.outcome]
  have counted : (before ++ version :: after).length -
        before.countP (fun version => version.header.freeVersion) -
          (if version.header.freeVersion then 1 else 0) -
            after.countP (fun version => version.header.freeVersion) =
      (before ++ version :: after).countP isShown := by
    rw [← count_shown, countP_append, countP_cons]
    omega
  simp only [counted, Bool.true_and]
  cases lastShown before <;> rfl

end SingleView

def isListed (fi : FileInfo) : Bool := !fi.tierFreeVersion

theorem filter_get_rank {α : Type} {keep : α → Bool} {items : List α} {item : α}
    (found : items[i]? = some item) (kept : keep item = true) :
    (items.filter keep)[(items.take i).countP keep]? = some item := by
  induction items generalizing i with
  | nil => simp at found
  | cons first rest ih =>
    cases i with
    | zero =>
      obtain rfl : first = item := by simpa using found
      simp [kept]
    | succ i =>
      by_cases keepFirst : keep first = true
      all_goals simp [keepFirst, ih found]

theorem chain_tier_free (num : Nat) (first : Bool) (prevModTime : Option OffsetDateTime)
    (infos : List FileInfo) :
    (chainVersions num first prevModTime infos).map isListed = infos.map isListed := by
  induction infos generalizing first prevModTime with
  | nil => rfl
  | cons info rest ih =>
    rw [chainVersions, map_cons, map_cons, ih]
    cases first <;> rfl

theorem chain_get_succ (num : Nat) (first : Bool) (prevModTime : Option OffsetDateTime)
    {infos : List FileInfo} {before : FileInfo} (previous : infos[i]? = some before)
    (here : infos[i + 1]? = some info) :
    (chainVersions num first prevModTime infos)[i + 1]? =
      some { info with successorModTime := before.modTime, numVersions := num } := by
  induction infos generalizing i first prevModTime with
  | nil => simp at previous
  | cons head rest ih =>
    cases i with
    | zero =>
      obtain rfl : head = before := by simpa using previous
      cases rest with
      | nil => simp at here
      | cons next rest =>
        obtain rfl : next = info := by simpa using here
        simp [chainVersions]
    | succ i =>
      exact ih false head.modTime previous here

theorem chain_rest_not_latest (num : Nat) (prevModTime : Option OffsetDateTime)
    {infos : List FileInfo} (unplaced : ∀ info ∈ infos, info.Unplaced) :
    ∀ fi ∈ chainVersions num false prevModTime infos, fi.isLatest = false := by
  induction infos generalizing prevModTime with
  | nil => simp [chainVersions]
  | cons info rest ih =>
    rw [chainVersions, forall_mem_cons]
    refine ⟨(unplaced info mem_cons_self).1, ?_⟩
    exact ih _ fun other member => unplaced other (mem_cons_of_mem _ member)

section ListView

variable {env : Runtime} {fm : FileMeta} {volume path : String} {infos : List FileInfo}

/-- The information both views decode from each entry. -/
def FileMeta.Decodes (env : Runtime) (volume path : String) (fm : FileMeta)
    (infos : List FileInfo) : Prop :=
  fm.versions.mapM (fun version => version.toFileinfo env volume path true true) = .ok infos

/-- The shown versions before they are numbered anew. -/
def listedChain (infos : List FileInfo) : List FileInfo :=
  (chainVersions infos.length true none infos).filter isListed

def listedNumber (infos : List FileInfo) : Nat := infos.countP isListed

theorem listed_chain_length (infos : List FileInfo) :
    (listedChain infos).length = listedNumber infos := by
  rw [listedChain, ← countP_eq_length_filter, listedNumber]
  have same := congrArg (List.countP id) (chain_tier_free infos.length true none infos)
  simpa [countP_map] using same

theorem get_file_info_versions_eq (decoded : fm.Decodes env volume path infos) (filled : infos ≠ []) :
    ∃ list, fm.getFileInfoVersions env volume path false = .ok list ∧
      list.versions = (listedChain infos).map fun fi =>
        { fi with numVersions := listedNumber infos } := by
  have nonempty : (chainVersions infos.length true none infos).isEmpty = false := by
    cases infos with
    | nil => exact absurd rfl filled
    | cons info rest => rfl
  have all : fm.intoFileInfoVersions env volume path true = .ok
      { volume := volume
        name := path
        latestModTime :=
          (chainVersions infos.length true none infos).head?.bind FileInfo.modTime
        versions := chainVersions infos.length true none infos
        freeVersions := [] } := by
    rw [intoFileInfoVersions, decoded, ok_bind]
    simp only [nonempty]
    rfl
  rw [getFileInfoVersions, all, ok_bind]
  refine ⟨_, rfl, ?_⟩
  simp only [← listed_chain_length]
  rfl

theorem listed_get {list : FileInfoVersions} {fi : FileInfo}
    (shown : list.versions = (listedChain infos).map fun fi =>
      { fi with numVersions := listedNumber infos })
    (placed : (chainVersions infos.length true none infos)[i]? = some fi)
    (listed : isListed fi = true) :
    list.versions[(infos.take i).countP isListed]? =
      some { fi with numVersions := listedNumber infos } := by
  have rank : (infos.take i).countP isListed =
      ((chainVersions infos.length true none infos).take i).countP isListed := by
    have same := congrArg (fun flags => (flags.take i).countP id)
      (chain_tier_free infos.length true none infos)
    simpa [← map_take, countP_map] using same.symm
  rw [shown, getElem?_map, rank, listedChain, filter_get_rank placed listed]
  rfl

end ListView

/-- Where a version stands among the others. -/
def FileInfo.SamePlacement (left right : FileInfo) : Prop :=
  left.isLatest = right.isLatest ∧ left.successorModTime = right.successorModTime ∧
    left.numVersions = right.numVersions

/-- The list view of the entry at an index is there and places it as the single
view of its id does. -/
def FileMeta.EntryAgrees (env : Runtime) (volume path : String) (fm : FileMeta)
    (infos : List FileInfo) (list : FileInfoVersions) (i : Nat)
    (version : FileMetaShallowVersion) : Prop :=
  ∃ listed single, (∀ info, infos[i]? = some info → info.tierFreeVersion = false) ∧
    list.versions[(infos.take i).countP isListed]? = some listed ∧
    fm.intoFileinfo env volume path version.header.denotes.text false false true = .ok single ∧
    listed.SamePlacement single

/-- Both views agree on every version that is not free, and the latest one of the
list is what an empty version id selects. -/
def FileMeta.ViewsAgree (env : Runtime) (volume path : String) (fm : FileMeta)
    (infos : List FileInfo) : Prop :=
  ∃ list, fm.getFileInfoVersions env volume path false = .ok list ∧
    (∀ i version, fm.versions[i]? = some version → version.header.freeVersion = false →
      fm.EntryAgrees env volume path infos list i version) ∧
    ((∃ version ∈ fm.versions, version.header.freeVersion = false) →
      ∃ latest, list.versions.filter FileInfo.isLatest = [latest] ∧
        fm.intoFileinfo env volume path "" false false true = .ok latest)

/-- The entries in front of the first one of the same version. -/
def FileMeta.entriesBefore (fm : FileMeta) (version : FileMetaShallowVersion) :
    List FileMetaShallowVersion :=
  fm.versions.takeWhile fun other => other.header.denotes ≠ version.header.denotes

/-- Every header's free flag is that of its body, and the entry directly before a
version that is not free has the mod time of the nearest such entry before it. -/
structure FileMeta.FreeVersionsAside (fm : FileMeta) (infos : List FileInfo) : Prop where
  flags : fm.versions.map isShown = infos.map isListed
  chained : ∀ i version before, fm.versions[i + 1]? = some version →
    version.header.freeVersion = false → infos[i]? = some before →
      ∃ prior, lastShown (fm.entriesBefore version) = some prior ∧
        prior.header.modTime = before.modTime

section Agreement

variable {env : Runtime} {fm : FileMeta} {volume path : String} {infos : List FileInfo}
  {list : FileInfoVersions}

/-- Every version's id is parsed back from its text. -/
def FileMeta.IdsParse (env : Runtime) (fm : FileMeta) : Prop :=
  ∀ version ∈ fm.versions,
    env.parseUuid version.header.denotes.text = some version.header.denotes

theorem into_fileinfo_named (parses : env.parseUuid id.text = some id) :
    fm.intoFileinfo env volume path id.text false false true =
      fm.selectVersion env volume path viewOptions (some id) := by
  have spelled : id.text.isEmpty = false := by
    simp [Uuid.text, hyphenate, String.isEmpty]
  rw [intoFileinfo, toFileinfo, selectorOf, spelled,
    MetaObject.parseUuidOr, parses]
  rfl

variable {version : FileMetaShallowVersion}

theorem single_view (parses : fm.IdsParse env) (decoded : fm.Decodes env volume path infos)
    (member : version ∈ fm.versions) :
    ∃ single, fm.intoFileinfo env volume path version.header.denotes.text false false true =
        .ok single ∧
      single.isLatest = ((fm.entriesBefore version).all fun other => other.header.freeVersion) ∧
      single.successorModTime =
        (lastShown (fm.entriesBefore version)).bind (fun prior => prior.header.modTime) ∧
      single.numVersions = fm.versions.countP isShown := by
  have split : fm.versions = fm.entriesBefore version ++
      fm.versions.dropWhile fun other => other.header.denotes ≠ version.header.denotes :=
    (takeWhile_append_dropWhile).symm
  have others : ∀ other ∈ fm.entriesBefore version,
      other.header.denotes ≠ version.header.denotes := by
    intro other inFront
    simpa using mem_takeWhile_imp inFront
  cases rest : fm.versions.dropWhile fun other => other.header.denotes ≠ version.header.denotes with
  | nil =>
    rw [rest, append_nil] at split
    exact absurd rfl (others version (split ▸ member))
  | cons first after =>
    rw [rest] at split
    have named : first.header.denotes = version.header.denotes := by
      have stopped := head?_dropWhile_not
        (fun other : FileMetaShallowVersion => decide (other.header.denotes ≠ version.header.denotes))
        fm.versions
      rw [rest] at stopped
      simpa using stopped
    have firstMember : first ∈ fm.versions := by
      rw [split]
      simp
    obtain ⟨i, here⟩ := mem_iff_getElem?.1 firstMember
    obtain ⟨info, _, read⟩ := map_m_get decoded here
    have unplaced := to_fileinfo_unplaced read
    refine ⟨_, (into_fileinfo_named (parses version member)).trans (select_version split others named read),
      rfl, ?_, rfl⟩
    rw [unplaced.2, Option.or_none]

theorem select_latest {rest : List FileMetaShallowVersion} (first : fm.versions = version :: rest)
    (shown : version.header.freeVersion = false)
    (read : version.toFileinfo env volume path true true = .ok info) :
    fm.intoFileinfo env volume path "" false false true =
      .ok { info with isLatest := true, numVersions := fm.versions.countP isShown } := by
  have opened : fm.intoFileinfo env volume path "" false false true =
      fm.selectVersion env volume path viewOptions none := rfl
  rw [opened, selectVersion, first, foldlM_cons,
    scan_selected (.inr ⟨rfl, shown⟩) read _ rfl, ok_bind, scan_after rest _ rfl, ok_bind,
    SelectScan.outcome]
  have counted : (version :: rest).length - 0 -
      rest.countP (fun version => version.header.freeVersion) =
        (version :: rest).countP isShown := by
    rw [← count_shown, countP_cons, shown]
    simp
  simp only [shown, if_false, false_eq_true, counted, Option.none_or]

theorem last_shown_mem {entries : List FileMetaShallowVersion} {prior : FileMetaShallowVersion}
    (last : lastShown entries = some prior) :
    prior ∈ entries ∧ prior.header.freeVersion = false := by
  have member := mem_filter.1 (mem_of_getLast? last)
  exact ⟨member.1, by simpa [isShown] using member.2⟩

theorem last_shown_eq_none {entries : List FileMetaShallowVersion}
    (vacant : lastShown entries = none) :
    (entries.all fun version => version.header.freeVersion) = true := by
  rw [lastShown, getLast?_eq_none_iff, filter_eq_nil_iff] at vacant
  rw [all_eq_true]
  intro version member
  simpa [isShown] using vacant version member

theorem entries_before_subset
    {before after : List FileMetaShallowVersion} (split : fm.versions = before ++ version :: after) :
    fm.entriesBefore version ⊆ before := by
  intro other inFront
  rw [entriesBefore, split, takeWhile_append] at inFront
  split at inFront
  · simpa using inFront
  · exact (takeWhile_sublist _).subset inFront

theorem first_shown (aside : fm.FreeVersionsAside infos)
    (lengths : infos.length = fm.versions.length)
    (member : version ∈ fm.versions) (shown : version.header.freeVersion = false) :
    ∃ first rest, fm.versions = first :: rest ∧ first.header.freeVersion = false := by
  obtain ⟨found, search⟩ : ∃ found, fm.versions.find? isShown = some found := by
    cases search : fm.versions.find? isShown with
    | some found => exact ⟨found, rfl⟩
    | none => simpa [isShown, shown] using find?_eq_none.1 search version member
  obtain ⟨shownFound, before, after, split, free⟩ := find?_eq_some_iff_append.1 search
  have foundShown : found.header.freeVersion = false := by simpa [isShown] using shownFound
  cases before with
  | nil => exact ⟨found, after, split, foundShown⟩
  | cons head tail =>
    have here : fm.versions[tail.length + 1]? = some found := by simp [split]
    have inRange : tail.length < infos.length := by
      simp only [lengths, split, length_append, length_cons]
      omega
    obtain ⟨prior, last, _⟩ := aside.chained tail.length found infos[tail.length] here foundShown
      (getElem?_eq_getElem inRange)
    obtain ⟨inFront, priorShown⟩ := last_shown_mem last
    have priorFree := free prior (entries_before_subset split inFront)
    simp [isShown, priorShown] at priorFree

theorem listed_number_eq (flags : fm.versions.map isShown = infos.map isListed) :
    listedNumber infos = fm.versions.countP isShown := by
  have same := congrArg (List.countP id) flags
  simpa [countP_map, listedNumber] using same.symm

theorem lengths_of_decodes (decoded : fm.Decodes env volume path infos) :
    infos.length = fm.versions.length :=
  (map_m_eq_ok.1 decoded).length_eq.symm

section

variable (parses : fm.IdsParse env) (decoded : fm.Decodes env volume path infos)
  (flags : fm.versions.map isShown = infos.map isListed)
  (shown : list.versions = (listedChain infos).map fun fi => { fi with numVersions := listedNumber infos })

include parses decoded flags shown

theorem entry_agrees_first (here : fm.versions[0]? = some version)
    (notFree : version.header.freeVersion = false) :
    fm.EntryAgrees env volume path infos list 0 version := by
  obtain ⟨info, infoHere, read⟩ := map_m_get decoded here
  have listed : isListed info = true := by
    have same := congrArg (fun flags => flags[0]?) flags
    simpa [here, infoHere, isShown, notFree] using same
  obtain ⟨rest, rfl⟩ : ∃ rest, infos = info :: rest := by
    cases infos with
    | nil => simp at infoHere
    | cons first rest => exact ⟨rest, by simpa using infoHere⟩
  obtain ⟨single, selected, latest, successor, number⟩ :=
    single_view parses decoded (mem_of_getElem? here)
  have nothing : fm.entriesBefore version = [] := by
    cases versions : fm.versions with
    | nil => simp [versions] at here
    | cons first others =>
      obtain rfl : first = version := by simpa [versions] using here
      simp [entriesBefore, versions]
  have placed : (chainVersions (info :: rest).length true none (info :: rest))[0]? =
      some { info with isLatest := true, numVersions := (info :: rest).length } := rfl
  refine ⟨_, single, ?_, listed_get shown placed listed, selected, ?_, ?_, ?_⟩
  · intro other otherHere
    obtain rfl : info = other := by simpa using otherHere
    simpa [isListed] using listed
  · rw [latest, nothing]
    rfl
  · rw [successor, nothing]
    exact (to_fileinfo_unplaced read).2
  · rw [number]
    exact listed_number_eq flags

theorem entry_agrees_later {before : FileInfo}
    (here : fm.versions[i + 1]? = some version) (notFree : version.header.freeVersion = false)
    (previous : infos[i]? = some before) {prior : FileMetaShallowVersion}
    (last : lastShown (fm.entriesBefore version) = some prior)
    (times : prior.header.modTime = before.modTime) :
    fm.EntryAgrees env volume path infos list (i + 1) version := by
  obtain ⟨info, infoHere, read⟩ := map_m_get decoded here
  have listed : isListed info = true := by
    have same := congrArg (fun flags => flags[i + 1]?) flags
    simpa [here, infoHere, isShown, notFree] using same
  obtain ⟨single, selected, latest, successor, number⟩ :=
    single_view parses decoded (mem_of_getElem? here)
  have placed := chain_get_succ infos.length true none previous infoHere
  refine ⟨_, single, ?_, listed_get shown placed listed, selected, ?_, ?_, ?_⟩
  · intro other otherHere
    obtain rfl : info = other := by simpa [infoHere] using otherHere
    simpa [isListed] using listed
  · obtain ⟨inFront, priorShown⟩ := last_shown_mem last
    rw [latest]
    have notAll : ((fm.entriesBefore version).all fun other => other.header.freeVersion) = false := by
      rw [all_eq_false]
      exact ⟨prior, inFront, by simp [priorShown]⟩
    rw [notAll]
    exact (to_fileinfo_unplaced read).1
  · rw [successor, last]
    exact times.symm
  · rw [number]
    exact listed_number_eq flags

end

theorem latest_agrees (decoded : fm.Decodes env volume path infos)
    (flags : fm.versions.map isShown = infos.map isListed)
    (shown : list.versions = (listedChain infos).map fun fi =>
      { fi with numVersions := listedNumber infos })
    {first : FileMetaShallowVersion} {rest : List FileMetaShallowVersion}
    (versions : fm.versions = first :: rest) (notFree : first.header.freeVersion = false) :
    ∃ latest, list.versions.filter FileInfo.isLatest = [latest] ∧
      fm.intoFileinfo env volume path "" false false true = .ok latest := by
  have here : fm.versions[0]? = some first := by simp [versions]
  obtain ⟨info, infoHere, read⟩ := map_m_get decoded here
  obtain ⟨others, rfl⟩ : ∃ others, infos = info :: others := by
    cases infos with
    | nil => simp at infoHere
    | cons head tail => exact ⟨tail, by simpa using infoHere⟩
  have listed : isListed info = true := by
    have same := congrArg (fun flags => flags[0]?) flags
    simpa [here, isShown, notFree] using same
  have unplaced : ∀ other ∈ others, other.Unplaced := by
    intro other member
    obtain ⟨i, otherHere⟩ := mem_iff_getElem?.1 member
    have inRange : i + 1 < fm.versions.length := by
      rw [← lengths_of_decodes decoded]
      have short := (List.getElem?_eq_some_iff.1 otherHere).1
      simpa using short
    obtain ⟨result, resultHere, otherRead⟩ := map_m_get decoded (getElem?_eq_getElem inRange)
    obtain rfl : other = result := by simpa [otherHere] using resultHere
    exact to_fileinfo_unplaced otherRead
  have behind : ((chainVersions (info :: others).length false info.modTime others).filter
      isListed).filter FileInfo.isLatest = [] := by
    rw [filter_eq_nil_iff]
    intro fi member
    rw [chain_rest_not_latest _ _ unplaced fi (mem_of_mem_filter member)]
    exact Bool.false_ne_true
  refine ⟨_, ?_, select_latest versions notFree read⟩
  rw [shown, listedChain, chainVersions, ← listed_number_eq flags, filter_map]
  have head : isListed { info with isLatest := true, numVersions := (info :: others).length } = true :=
    listed
  simp only [if_true, filter_cons, head]
  simpa [Function.comp_def] using behind

theorem list_ok (decoded : fm.Decodes env volume path infos) :
    ∃ list, fm.getFileInfoVersions env volume path false = .ok list := by
  rw [getFileInfoVersions, intoFileInfoVersions, decoded]
  exact ⟨_, rfl⟩

theorem views_agree_of_free (decoded : fm.Decodes env volume path infos)
    (free : ∀ version ∈ fm.versions, version.header.freeVersion = true) :
    fm.ViewsAgree env volume path infos := by
  obtain ⟨list, listed⟩ := list_ok decoded
  refine ⟨list, listed, ?_, ?_⟩
  · intro i version here shown
    rw [free version (mem_of_getElem? here)] at shown
    cases shown
  · intro ⟨version, member, shown⟩
    rw [free version member] at shown
    cases shown

theorem views_agree_of_aside (parses : fm.IdsParse env)
    (decoded : fm.Decodes env volume path infos) (aside : fm.FreeVersionsAside infos) :
    fm.ViewsAgree env volume path infos := by
  by_cases free : ∀ version ∈ fm.versions, version.header.freeVersion = true
  · exact views_agree_of_free decoded free
  have nonempty : infos ≠ [] := by
    intro empty
    have lengths := lengths_of_decodes decoded
    rw [empty] at lengths
    have vacant : fm.versions = [] := eq_nil_of_length_eq_zero lengths.symm
    exact free (by simp [vacant])
  obtain ⟨list, listed, shown⟩ := get_file_info_versions_eq decoded nonempty
  refine ⟨list, listed, ?_, ?_⟩
  · intro i version here notFree
    cases i with
    | zero => exact entry_agrees_first parses decoded aside.flags shown here notFree
    | succ i =>
      have inRange : i < infos.length := by
        have bound := (List.getElem?_eq_some_iff.1 here).1
        rw [lengths_of_decodes decoded]
        omega
      have previous := getElem?_eq_getElem inRange
      obtain ⟨prior, last, times⟩ := aside.chained i version _ here notFree previous
      exact entry_agrees_later parses decoded aside.flags shown here notFree previous last times
  · intro ⟨version, member, notFree⟩
    obtain ⟨first, rest, versions, firstShown⟩ :=
      first_shown aside (lengths_of_decodes decoded) member notFree
    exact latest_agrees decoded aside.flags shown versions firstShown

theorem flags_eq {α β : Type} {p : α → Bool} {q : β → Bool} {left : List α} {right : List β}
    (each : List.Forall₂ (fun a b => p a = true → q b = true) left right)
    (count : right.countP q = left.countP p) : left.map p = right.map q := by
  have fewer : ∀ {left : List α} {right : List β},
      List.Forall₂ (fun a b => p a = true → q b = true) left right →
        left.countP p ≤ right.countP q := by
    intro left right each
    induction each with
    | nil => simp
    | @cons a b _ _ implied _ ih =>
      rw [countP_cons, countP_cons]
      cases held : p a with
      | true => simpa [implied held] using ih
      | false => simp; omega
  induction each with
  | nil => rfl
  | @cons a b left right implied rest ih =>
    have bound := fewer rest
    rw [countP_cons, countP_cons] at count
    cases held : p a with
    | true =>
      simp only [implied held, held, if_true, Nat.add_right_cancel_iff] at count
      simp [held, implied held, ih count]
    | false =>
      cases heldRight : q b with
      | true =>
        simp only [held, heldRight, if_true, false_eq_true, if_false] at count
        omega
      | false =>
        simp only [held, heldRight, false_eq_true, if_false, Nat.add_zero] at count
        simp [held, heldRight, ih count]

theorem aside_of_views_agree (parses : fm.IdsParse env)
    (decoded : fm.Decodes env volume path infos) (agree : fm.ViewsAgree env volume path infos)
    (member : version ∈ fm.versions)
    (notFree : version.header.freeVersion = false) : fm.FreeVersionsAside infos := by
  have nonempty : infos ≠ [] := by
    intro empty
    have lengths := lengths_of_decodes decoded
    rw [empty] at lengths
    rw [eq_nil_of_length_eq_zero lengths.symm] at member
    cases member
  obtain ⟨list, listed, entries, _⟩ := agree
  obtain ⟨other, otherListed, shown⟩ := get_file_info_versions_eq decoded nonempty
  obtain rfl : other = list := by
    rw [listed] at otherListed
    cases otherListed
    rfl
  have flags : fm.versions.map isShown = infos.map isListed := by
    apply flags_eq
    · rw [forall₂_iff_get]
      refine ⟨(lengths_of_decodes decoded).symm, ?_⟩
      intro i inVersions inInfos shownHere
      obtain ⟨_, _, kept, _⟩ := entries i _ (getElem?_eq_getElem inVersions)
        (by simpa [isShown] using shownHere)
      simp [isListed, kept _ (getElem?_eq_getElem inInfos)]
    · obtain ⟨i, here⟩ := mem_iff_getElem?.1 member
      obtain ⟨entry, single, _, found, selected, _, _, numbers⟩ := entries i version here notFree
      obtain ⟨view, viewed, _, _, number⟩ := single_view parses decoded member
      obtain rfl : view = single := by
        rw [selected] at viewed
        cases viewed
        rfl
      have entryNumber : entry.numVersions = listedNumber infos := by
        have inList := mem_of_getElem? found
        rw [shown] at inList
        obtain ⟨fi, _, rfl⟩ := mem_map.1 inList
        rfl
      exact entryNumber.symm.trans (numbers.trans number)
  refine ⟨flags, ?_⟩
  intro i later before here laterShown previous
  obtain ⟨entry, single, _, found, selected, latest, successor, _⟩ := entries (i + 1) later here laterShown
  obtain ⟨info, infoHere, read⟩ := map_m_get decoded here
  have infoListed : isListed info = true := by
    have same := congrArg (fun flags => flags[i + 1]?) flags
    simpa [here, infoHere, isShown, laterShown] using same
  have placed := listed_get shown (chain_get_succ infos.length true none previous infoHere) infoListed
  rw [found] at placed
  obtain rfl := Option.some.inj placed
  obtain ⟨view, viewed, viewLatest, viewSuccessor, _⟩ :=
    single_view parses decoded (mem_of_getElem? here)
  obtain rfl : view = single := by
    rw [selected] at viewed
    cases viewed
    rfl
  cases last : lastShown (fm.entriesBefore later) with
  | none =>
    rw [viewLatest, last_shown_eq_none last] at latest
    exact absurd (latest.symm.trans (to_fileinfo_unplaced read).1) (by decide)
  | some prior =>
    refine ⟨prior, rfl, ?_⟩
    rw [viewSuccessor, last] at successor
    exact successor.symm

/-- The two views agree exactly when every version is free, or the free versions
stand aside: the flags of headers and bodies are the same, and the entry directly
before a shown version carries the mod time of the nearest shown version before
it. -/
theorem views_agree_iff (parses : fm.IdsParse env) (decoded : fm.Decodes env volume path infos) :
    fm.ViewsAgree env volume path infos ↔
      (∀ version ∈ fm.versions, version.header.freeVersion = true) ∨
        fm.FreeVersionsAside infos := by
  constructor
  · intro agree
    by_cases free : ∀ version ∈ fm.versions, version.header.freeVersion = true
    · exact .inl free
    · obtain ⟨version, member, notFree⟩ : ∃ version ∈ fm.versions,
          version.header.freeVersion = false := by simpa using free
      exact .inr (aside_of_views_agree parses decoded agree member notFree)
  · rintro (free | aside)
    · exact views_agree_of_free decoded free
    · exact views_agree_of_aside parses decoded aside

end Agreement

def cleanupRecord : FileMetaVersion :=
  { FileMetaVersion.default with
    versionType := .delete
    deleteMarker := some
      { versionId := some 7
        modTime := some ⟨1700000000000000000, OffsetDateTime.sample_in_range⟩
        metaSys := insertBytes .empty suffixFreeVersion [] } }

def olderObject : FileMetaVersion :=
  { FileMetaVersion.default with
    versionType := .object
    object := some
      { MetaObject.default with
        versionId := some 5
        erasureAlgorithm := .reedSolomon
        bitrotChecksumAlgo := .highwayHash
        modTime := some ⟨1600000000000000000, by decide⟩ } }

theorem cleanup_record_fits : cleanupRecord.Fits where
  legacyObject := by rintro _ ⟨⟩
  object := by rintro _ ⟨⟩
  deleteMarker := by
    rintro _ ⟨⟩
    exact ⟨by decide, by decide, by decide⟩
  writeVersion := by decide
  usesLegacyChecksum := rfl

theorem older_object_fits : olderObject.Fits where
  legacyObject := by rintro _ ⟨⟩
  object := by
    rintro _ ⟨⟩
    exact ⟨by decide, by decide, ⟨by decide, by decide⟩, by decide, by decide,
      ⟨by decide, by decide⟩, by decide, ⟨by decide, by decide⟩, ⟨by decide, by decide⟩⟩
  deleteMarker := by rintro _ ⟨⟩
  writeVersion := by decide
  usesLegacyChecksum := rfl

theorem shallow_reads {version : FileMetaVersion} (fits : version.Fits)
    (valid : version.normal.valid = true) (volume path : String) (allParts withChecksums : Bool) :
    (version.toShallow env).toFileinfo env volume path allParts withChecksums =
      version.normal.toFileinfo env volume path allParts withChecksums := by
  rw [FileMetaShallowVersion.toFileinfo, FileMetaShallowVersion.parseVersionMeta,
    FileMetaVersion.toShallow, FileMetaVersion.try_from_marshal fits valid]
  rfl

theorem cleanup_record_read : ∃ info,
    (cleanupRecord.toShallow .sample).toFileinfo .sample "" "" true true = .ok info ∧
      isListed info = false := by
  rw [shallow_reads cleanup_record_fits (by decide)]
  exact ⟨_, rfl, by decide⟩

theorem older_object_read : ∃ info,
    (olderObject.toShallow .sample).toFileinfo .sample "" "" true true = .ok info ∧
      isListed info = true := by
  rw [shallow_reads older_object_fits (by decide)]
  exact ⟨_, rfl, by decide⟩

theorem sample_ids_parse {fm : FileMeta} (entries : ∀ version ∈ fm.versions,
    version = cleanupRecord.toShallow .sample ∨ version = olderObject.toShallow .sample) :
    fm.IdsParse .sample := by
  intro version member
  rcases entries version member with rfl | rfl <;> decide

theorem views_agree_object_first :
    ∃ infos, FileMeta.Decodes .sample "" ""
        ⟨[olderObject.toShallow .sample, cleanupRecord.toShallow .sample], [], 3⟩ infos ∧
      FileMeta.ViewsAgree .sample "" ""
        ⟨[olderObject.toShallow .sample, cleanupRecord.toShallow .sample], [], 3⟩ infos := by
  obtain ⟨object, readObject, shown⟩ := older_object_read
  obtain ⟨record, readRecord, hidden⟩ := cleanup_record_read
  have decoded : FileMeta.Decodes .sample "" ""
      ⟨[olderObject.toShallow .sample, cleanupRecord.toShallow .sample], [], 3⟩ [object, record] :=
    map_m_eq_ok.2 (.cons readObject (.cons readRecord .nil))
  refine ⟨_, decoded, (views_agree_iff (sample_ids_parse (by simp)) decoded).2 (.inr ⟨?_, ?_⟩)⟩
  · have free : isShown (cleanupRecord.toShallow .sample) = false := by decide
    have notFree : isShown (olderObject.toShallow .sample) = true := by decide
    simp only [map_cons, map_nil, free, notFree, shown, hidden]
  · intro i version before here notFree _
    cases i with
    | succ i => simp at here
    | zero =>
      obtain rfl : cleanupRecord.toShallow .sample = version := by simpa using here
      exact absurd notFree (by decide)

/-- A cleanup record in front of an older object: the list shows no version as the
latest, the single view does. -/
theorem list_view_misses_latest :
    ¬ ∀ (fm : FileMeta) (infos : List FileInfo), fm.IdsParse .sample →
      fm.Decodes .sample "" "" infos → fm.ViewsAgree .sample "" "" infos := by
  intro always
  obtain ⟨object, readObject, _⟩ := older_object_read
  obtain ⟨record, readRecord, _⟩ := cleanup_record_read
  let fm : FileMeta :=
    ⟨[cleanupRecord.toShallow .sample, olderObject.toShallow .sample], [], 3⟩
  have decoded : fm.Decodes .sample "" "" [record, object] :=
    map_m_eq_ok.2 (.cons readRecord (.cons readObject .nil))
  have parses : fm.IdsParse .sample := sample_ids_parse (by simp [fm])
  have notFree : (olderObject.toShallow .sample).header.freeVersion = false := by decide
  have aside := aside_of_views_agree parses decoded (always fm _ parses decoded)
    (by simp [fm]) notFree
  obtain ⟨prior, last, _⟩ := aside.chained 0 (olderObject.toShallow .sample) record rfl notFree rfl
  obtain ⟨inFront, shown⟩ := last_shown_mem last
  have split : fm.versions = [cleanupRecord.toShallow .sample] ++ olderObject.toShallow .sample :: [] :=
    rfl
  obtain rfl : prior = cleanupRecord.toShallow .sample := by
    simpa using entries_before_subset split inFront
  exact absurd shown (by decide)

end Rustfs.Filemeta
