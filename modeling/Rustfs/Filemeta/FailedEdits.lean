import Rustfs.Filemeta.ReleasedDir

/-!
# Failed edits

An edit of the version list that reports an error should leave the list and the inline data as they
were. An addition does; an update or a delete may have changed an entry before it fails. What a
caller does with the changed value is not part of this module.
-/

namespace Rustfs.Filemeta

open List Library Library.MessagePack Library.Outcome Utils FileMeta FileMetaShallowVersion

/-- If the call has failed, the version list and the inline data are what they were. Of a call
that succeeds nothing is said. -/
def KeptOnError {α : Type} (fm : FileMeta) (outcome : Except Error α × FileMeta) : Prop :=
  ∀ error, outcome.1 = .error error → outcome.2.versions = fm.versions ∧ outcome.2.data = fm.data

variable {fm : FileMeta} {α : Type} {outcome : Except Error α × FileMeta}
  {versions : List FileMetaShallowVersion} {found : Option Nat} {error : Error}

theorem kept_of_ok {value : α} (done : outcome.1 = .ok value) : KeptOnError fm outcome := by
  intro error failed
  rw [done] at failed
  cases failed

theorem kept_of_same (same : outcome.2 = fm) : KeptOnError fm outcome := by
  intro error _
  rw [same]
  exact ⟨rfl, rfl⟩

theorem kept_map {α β : Type} {outcome : Except Error α × FileMeta}
    (kept : KeptOnError fm outcome) {change : α → β} :
    KeptOnError fm (outcome.1.map change, outcome.2) := by
  intro error failed
  cases result : outcome.1 with
  | error first => exact kept first result
  | ok value =>
    rw [result] at failed
    cases failed

theorem not_kept
    (failed : ¬ ∃ value, outcome.1 = .ok value) (moved : outcome.2.versions ≠ fm.versions) :
    ¬ KeptOnError fm outcome := by
  intro kept
  cases isError : outcome.1 with
  | ok value => exact failed ⟨value, isError⟩
  | error error => exact moved (kept error isError).1

theorem set_idx_kept {env : Runtime} {idx : Nat} {version : FileMetaVersion} :
    KeptOnError fm (fm.setIdx env idx version) := by
  unfold setIdx
  split
  · exact kept_of_same rfl
  · exact kept_of_ok rfl

section Adding

variable {env : Runtime} {fi : FileInfo} {fm : FileMeta} {version : FileMetaVersion}

/-- The list takes the version: there is room for it, or it may replace the entry with its id. -/
def Storable (env : Runtime) (version : FileMetaVersion) (fm : FileMeta) : Prop :=
  version.valid = true ∧ ∃ next, Added env fm version next

theorem storable_added (storable : Storable env version fm) :
    (fm.addVersionFilemata env version).1 = .ok () := by
  obtain ⟨valid, next, added⟩ := storable
  unfold addVersionFilemata
  rw [valid]
  cases added with
  | inserted absent room =>
    rw [absent]
    rw [if_neg (not_le.2 room)]
    rfl
  | replaced present found alike preserved =>
    rw [present]
    dsimp only
    unfold replaceVersion
    rw [found]
    dsimp only
    rw [if_neg (not_not.2 alike), preserved]
    dsimp only
    rw [set_idx_eq (get_idx_inside found)]
    rfl

theorem refused_unchanged (refused : ¬ Storable env version fm) :
    (∃ error, (fm.addVersionFilemata env version).1 = .error error) ∧
      (fm.addVersionFilemata env version).2 = fm := by
  rcases add_version_filemata_cases env fm version with ⟨error, failed, same⟩ | ⟨_, valid, added⟩
  · exact ⟨⟨error, failed⟩, same⟩
  · exact absurd ⟨valid, _, added⟩ refused

theorem add_version_filemata_kept : KeptOnError fm (fm.addVersionFilemata env version) := by
  rcases add_version_filemata_cases env fm version with ⟨_, _, same⟩ | ⟨done, _⟩
  · exact kept_of_same same
  · exact kept_of_ok done

theorem add_version_inner_kept : KeptOnError fm (fm.addVersionInner env fi) := by
  unfold addVersionInner
  dsimp only
  split
  · exact add_version_filemata_kept
  split
  · exact kept_of_same rfl
  split
  · exact kept_of_ok rfl
  · rename_i error next failed
    intro _ _
    have kept := @add_version_filemata_kept env fm
      (.fromFileInfo env (storedRequest fi)) error (by rw [failed])
    rw [failed] at kept
    exact kept

theorem add_version_kept : KeptOnError fm (fm.addVersion env fi) := by
  unfold addVersion
  split
  · exact kept_of_same rfl
  · exact add_version_inner_kept
  split
  · exact kept_of_same rfl
  split
  · exact kept_of_same rfl
  · exact kept_of_ok rfl

end Adding

section Updating

variable {env : Runtime} {fi : FileInfo} {replaceUserMetadata : Bool}

/-- What the loop of an update makes of one entry. -/
def FileMetaShallowVersion.visited (env : Runtime) (fi : FileInfo) (replaceUserMetadata : Bool)
    (version : FileMetaShallowVersion) : Except Error FileMetaShallowVersion :=
  match version.header.versionType with
  | .invalid | .legacy => .ok version
  | .object =>
    if version.header.versionId.getD Uuid.nil = fi.versionId.getD Uuid.nil then
      version.updated env fi replaceUserMetadata
    else .ok version
  | .delete =>
    if version.header.versionId = fi.versionId then .error .methodNotAllowed else .ok version

theorem update_entries_cons (version : FileMetaShallowVersion)
    (rest : List FileMetaShallowVersion) :
    updateEntries env fi replaceUserMetadata (version :: rest) =
      match version.visited env fi replaceUserMetadata with
      | .error error => (.error error, version :: rest)
      | .ok next =>
        ((updateEntries env fi replaceUserMetadata rest).1,
          next :: (updateEntries env fi replaceUserMetadata rest).2) := by
  rw [updateEntries, visited]
  cases version.header.versionType with
  | invalid => rfl
  | legacy => rfl
  | object =>
    dsimp only
    split
    · cases version.updated env fi replaceUserMetadata with
      | error error => rfl
      | ok next => rfl
    · rfl
  | delete =>
    dsimp only
    split
    all_goals rfl

/-- The entry as the loop leaves it behind. -/
def FileMetaShallowVersion.left (env : Runtime) (fi : FileInfo) (replaceUserMetadata : Bool)
    (version : FileMetaShallowVersion) : FileMetaShallowVersion :=
  match version.visited env fi replaceUserMetadata with
  | .ok next => next
  | .error _ => version

/-- The entries that an update gets past. -/
def Passed (env : Runtime) (fi : FileInfo) (replaceUserMetadata : Bool)
    (versions : List FileMetaShallowVersion) : Prop :=
  ∀ version ∈ versions, ∃ next, version.visited env fi replaceUserMetadata = .ok next

theorem update_entries_append {before : List FileMetaShallowVersion}
    (passed : Passed env fi replaceUserMetadata before) (rest : List FileMetaShallowVersion) :
    updateEntries env fi replaceUserMetadata (before ++ rest) =
      ((updateEntries env fi replaceUserMetadata rest).1,
        before.map (FileMetaShallowVersion.left env fi replaceUserMetadata) ++
          (updateEntries env fi replaceUserMetadata rest).2) := by
  induction before with
  | nil => rfl
  | cons version before ih =>
    obtain ⟨next, isNext⟩ := passed version mem_cons_self
    have isLeft : version.left env fi replaceUserMetadata = next := by
      unfold left
      rw [isNext]
    rw [cons_append, update_entries_cons, isNext,
      ih fun other member => passed other (mem_cons_of_mem _ member), map_cons, isLeft]
    rfl

theorem update_entries_at {before after : List FileMetaShallowVersion}
    {stopping : FileMetaShallowVersion} (passed : Passed env fi replaceUserMetadata before)
    (stops : stopping.visited env fi replaceUserMetadata = .error error) :
    updateEntries env fi replaceUserMetadata (before ++ stopping :: after) =
      (.error error, before.map (FileMetaShallowVersion.left env fi replaceUserMetadata) ++
        stopping :: after) := by
  rw [update_entries_append passed, update_entries_cons, stops]

theorem update_entries_stopped
    (failed : (updateEntries env fi replaceUserMetadata versions).1 = .error error) :
    ∃ before stopping after, versions = before ++ stopping :: after ∧
      stopping.visited env fi replaceUserMetadata = .error error ∧
      Passed env fi replaceUserMetadata before := by
  induction versions with
  | nil => cases failed
  | cons version rest ih =>
    rw [update_entries_cons] at failed
    cases visited : version.visited env fi replaceUserMetadata with
    | error stop =>
      rw [visited] at failed
      cases failed
      exact ⟨[], version, rest, rfl, visited, fun _ absent => absurd absent not_mem_nil⟩
    | ok next =>
      rw [visited] at failed
      obtain ⟨before, stopping, after, rfl, stops, passed⟩ := ih failed
      exact ⟨version :: before, stopping, after, rfl, stops,
        forall_mem_cons.2 ⟨⟨next, visited⟩, passed⟩⟩

/-- An update that stops at an entry has left those before it as they are. -/
def UndividedUpdate (env : Runtime) (fi : FileInfo) (replaceUserMetadata : Bool)
    (versions : List FileMetaShallowVersion) : Prop :=
  ∀ before stopping after error, versions = before ++ stopping :: after →
    stopping.visited env fi replaceUserMetadata = .error error →
    Passed env fi replaceUserMetadata before →
    ∀ version ∈ before, version.visited env fi replaceUserMetadata = .ok version

theorem update_kept_iff (fm : FileMeta) :
    KeptOnError fm (fm.updateObjectVersionWithOpts env fi replaceUserMetadata) ↔
      UndividedUpdate env fi replaceUserMetadata fm.versions := by
  have stored : ∀ {error : Error} {versions : List FileMetaShallowVersion},
      updateEntries env fi replaceUserMetadata fm.versions = (.error error, versions) →
      fm.updateObjectVersionWithOpts env fi replaceUserMetadata =
        (.error error, { fm with versions }) := by
    intro error versions stopped
    unfold updateObjectVersionWithOpts
    rw [stopped]
  constructor
  · intro kept before stopping after error split stops passed version member
    have outcome := stored (split ▸ update_entries_at passed stops)
    rw [outcome] at kept
    have same := (kept error rfl).1
    rw [split] at same
    have unchanged := map_eq_map_iff.1
      ((append_cancel_right same).trans (map_id before).symm) version member
    obtain ⟨next, isNext⟩ := passed version member
    unfold left at unchanged
    rw [isNext] at unchanged
    rw [isNext]
    exact congrArg Except.ok unchanged
  · intro undivided error failed
    have stopped : (updateEntries env fi replaceUserMetadata fm.versions).1 = .error error := by
      unfold updateObjectVersionWithOpts at failed
      split at failed
      · cases failed
      · rename_i isStopped
        rw [isStopped]
        exact failed
    obtain ⟨before, stopping, after, split, stops, passed⟩ := update_entries_stopped stopped
    have outcome := stored (split ▸ update_entries_at passed stops)
    have unchanged : before.map (left env fi replaceUserMetadata) = before := by
      rw [map_congr_left fun version member => ?_, map_id']
      unfold left
      rw [undivided before stopping after error split stops passed version member]
    rw [outcome, unchanged]
    exact ⟨split.symm, rfl⟩

end Updating

section Deleting

variable {env : Runtime} {fi : FileInfo} {fm : FileMeta} {idx : Nat} {version : FileMetaVersion}
  {object : MetaObject} {entry : FileMetaShallowVersion} {changed : FileMeta}
  {result : Except Error Unit}

/-- What the end of the loop says of the list: a marker to remove is in it, and an object to
change is one. -/
def ScanEnds (versions : List FileMetaShallowVersion) (start : Nat) (found : Option Nat) :
    DeleteScan → Prop
  | .removeMarker idx => ∃ offset, idx = start + offset ∧ offset < versions.length
  | .finished (some idx) => found = some idx ∨
      ∃ offset entry, idx = start + offset ∧ versions[offset]? = some entry ∧
        entry.header.versionType = .object
  | _ => True

theorem scan_ends_cons {entry : FileMetaShallowVersion} {versions : List FileMetaShallowVersion}
    {start : Nat} {found : Option Nat} {scan : DeleteScan}
    (ends : ScanEnds versions (start + 1) found scan) :
    ScanEnds (entry :: versions) start found scan := by
  cases scan with
  | removeMarker idx =>
    obtain ⟨offset, isIdx, inside⟩ := ends
    exact ⟨offset + 1, by omega, Nat.succ_lt_succ inside⟩
  | finished last =>
    cases last with
    | none => trivial
    | some idx =>
      rcases ends with isFound | ⟨offset, other, isIdx, isOther, isObject⟩
      · exact .inl isFound
      · exact .inr ⟨offset + 1, other, by omega, isOther, isObject⟩
  | notFree | invalid | updateMarker idx | updateObject idx => trivial

theorem delete_scan_ends (update : Bool) (versions : List FileMetaShallowVersion) (start : Nat)
    (found : Option Nat) : ScanEnds versions start found (deleteScan fi update versions start found) := by
  induction versions generalizing start found with
  | nil =>
    cases found with
    | none => trivial
    | some idx => exact .inl rfl
  | cons entry versions ih =>
    unfold deleteScan
    split
    · exact scan_ends_cons (ih (start + 1) found)
    split
    · trivial
    split
    · trivial
    · trivial
    · split
      · trivial
      · exact ⟨0, rfl, Nat.succ_pos _⟩
    · rename_i isObject
      split
      · trivial
      · have later := @scan_ends_cons entry _ _ _ _ (ih (start + 1) (some start))
        generalize deleteScan fi update versions (start + 1) (some start) = scan at later
        cases scan with
        | finished last =>
          cases last with
          | none => trivial
          | some idx =>
            rcases later with isStart | further
            · cases isStart
              exact .inr ⟨0, entry, rfl, rfl, isObject⟩
            · exact .inr further
        | removeMarker idx => exact later
        | notFree | invalid | updateMarker idx | updateObject idx => trivial

def FileMetaShallowVersion.isObject (entry : FileMetaShallowVersion) : Bool :=
  decide (entry.header.versionType = .object)

def objectCount (versions : List FileMetaShallowVersion) : Nat :=
  versions.countP FileMetaShallowVersion.isObject

theorem object_removed (isEntry : fm.versions[idx]? = some entry)
    (isObject : entry.header.versionType = .object) :
    objectCount (fm.removeIdx idx).versions < objectCount fm.versions := by
  obtain ⟨inside, rfl⟩ := List.getElem?_eq_some_iff.1 isEntry
  unfold objectCount removeIdx
  rw [← (getElem_cons_eraseIdx_perm inside).countP_eq,
    countP_cons_of_pos (show FileMetaShallowVersion.isObject _ = true from decide_eq_true isObject)]
  exact Nat.lt_succ_self _

theorem change_object_data (inside : idx < fm.versions.length) :
    (fm.changeObject env fi idx version object).2.data = fm.data := by
  rw [change_object_eq inside]
  cases rewrittenVersion env fi version object with
  | some kept => rfl
  | none =>
    cases object.initFreeVersion env fi with
    | error error => rfl
    | ok record =>
      cases record with
      | none => rfl
      | some record =>
        rcases add_version_filemata_cases env (fm.removeIdx idx) record with
          ⟨_, _, same⟩ | ⟨_, _, added⟩
        · rw [same]
          rfl
        · exact (added_data added).trans rfl

theorem change_object_moves (isEntry : fm.versions[idx]? = some entry)
    (isObject : entry.header.versionType = .object)
    (removed : rewrittenVersion env fi version object = none) :
    objectCount (fm.changeObject env fi idx version object).2.versions < objectCount fm.versions := by
  have inside := (List.getElem?_eq_some_iff.1 isEntry).1
  have fewer := object_removed isEntry isObject
  rw [change_object_eq inside, removed]
  cases built : object.initFreeVersion env fi with
  | error error => exact fewer
  | ok record =>
    cases record with
    | none => exact fewer
    | some record =>
      rcases add_version_filemata_cases env (fm.removeIdx idx) record with
        ⟨_, _, same⟩ | ⟨_, _, added⟩
      · rw [same]
        exact fewer
      · obtain ⟨bare, isMarker⟩ := free_version_bare built
        have notObject : ¬ (record.toShallow env).isObject = true := by
          change ¬ decide ((record.header env).versionType = .object) = true
          rw [isMarker]
          decide
        apply Nat.lt_of_le_of_lt _ fewer
        unfold objectCount
        rw [(added_perm added bare).countP_eq, countP_cons_of_neg notObject]
        exact (besides_sublist _ _).countP_le

def FileInfo.replacesMarker (fi : FileInfo) : Bool :=
  (fi.markDeleted && fi.versionPurgeStatus ≠ .complete) ||
    (fi.deleted && fi.targetId = some Uuid.nil)

/-- The entry of an object is gone or rewritten, and what belongs in its place is refused: the
cleanup record cannot be built, it cannot be stored, or the delete marker cannot. -/
inductive TornObject (env : Runtime) (fi : FileInfo) (fm : FileMeta) (idx : Nat)
    (version : FileMetaVersion) (object : MetaObject) : Prop
  | unbuilt {error : Error} (removed : rewrittenVersion env fi version object = none)
      (failed : object.initFreeVersion env fi = .error error) :
      TornObject env fi fm idx version object
  | unkept {record : FileMetaVersion} (removed : rewrittenVersion env fi version object = none)
      (built : object.initFreeVersion env fi = .ok (some record)) (plain : fi.deleted = false)
      (refused : ¬ Storable env record (fm.removeIdx idx)) : TornObject env fi fm idx version object
  | unmarked (marked : fi.deleted = true)
      (moved : ∀ kept, rewrittenVersion env fi version object = some kept →
        (fm.withEntry idx (kept.toShallow env)).versions ≠ fm.versions)
      (refused : ¬ Storable env (fi.deleteEntry env)
        (fm.changeObject env fi idx version object).2) : TornObject env fi fm idx version object

/-- A delete that goes to the entry of a version and tears it. -/
inductive TornEntry (env : Runtime) (fi : FileInfo) (fm : FileMeta) : Prop
  | marker {idx : Nat}
      (scanned : deleteScan fi (fi.updatesVersion (fm.targetIsDeleteMarker fi)) fm.versions 0 none =
        .removeMarker idx)
      (replaces : fi.replacesMarker = true)
      (refused : ¬ Storable env (fi.deleteEntry env) (fm.removeIdx idx)) : TornEntry env fi fm
  | object {idx : Nat} {version : FileMetaVersion} {object : MetaObject}
      (selects : fm.Selects env fi idx version object)
      (torn : TornObject env fi fm idx version object) : TornEntry env fi fm

def TornDelete (env : Runtime) (fi : FileInfo) (fm : FileMeta) : Prop :=
  fi.validateForDeleteOperation env = .ok () ∧ (fi.deleted && fi.tierFreeVersion) = false ∧
    TornEntry env fi fm

theorem delete_object_ends
    (changes : fm.changeObject env fi idx version object = (.error error, changed)) :
    fm.deleteObject env fi idx version object = (.error error, changed) := by
  unfold deleteObject
  rw [changes]

theorem delete_object_marked (marked : fi.deleted = true)
    (changes : fm.changeObject env fi idx version object = (.ok result, changed)) :
    ((∃ dir, (fm.deleteObject env fi idx version object).1 = .ok dir) ↔
        Storable env (fi.deleteEntry env) changed) ∧
      (¬ Storable env (fi.deleteEntry env) changed →
        (fm.deleteObject env fi idx version object).2 = changed) := by
  unfold deleteObject
  rw [changes, marked]
  dsimp only [if_true]
  by_cases storable : Storable env (fi.deleteEntry env) changed
  · rw [if_pos rfl, storable_added storable]
    exact ⟨⟨fun _ => storable, fun _ => ⟨_, rfl⟩⟩, fun refused => absurd storable refused⟩
  · obtain ⟨⟨error, failed⟩, same⟩ := refused_unchanged storable
    rw [if_pos rfl, failed]
    refine ⟨⟨?_, fun stored => absurd stored storable⟩, fun _ => same⟩
    rintro ⟨dir, done⟩
    cases done

theorem delete_object_plain (plain : fi.deleted = false)
    (changes : fm.changeObject env fi idx version object = (.ok result, changed)) :
    fm.deleteObject env fi idx version object =
      (result.map fun _ => changed.releasedDataDir env object, changed) := by
  unfold deleteObject
  rw [changes, plain]
  rfl

theorem delete_object_torn (isEntry : fm.versions[idx]? = some entry)
    (isObject : entry.header.versionType = .object)
    (torn : TornObject env fi fm idx version object) :
    ¬ KeptOnError fm (fm.deleteObject env fi idx version object) := by
  have inside := (List.getElem?_eq_some_iff.1 isEntry).1
  have changes := @change_object_eq env fi fm idx version object inside
  have moves : (∀ kept, rewrittenVersion env fi version object = some kept →
        (fm.withEntry idx (kept.toShallow env)).versions ≠ fm.versions) →
      (fm.changeObject env fi idx version object).2.versions ≠ fm.versions := by
    intro moved
    cases rewritten : rewrittenVersion env fi version object with
    | none =>
      intro same
      have fewer := change_object_moves isEntry isObject rewritten
      rw [same] at fewer
      exact Nat.lt_irrefl _ fewer
    | some kept =>
      rw [changes, rewritten]
      exact moved kept rewritten
  cases torn with
  | unbuilt removed failed =>
    have moved := moves fun kept isKept => by rw [removed] at isKept; cases isKept
    rw [removed] at changes
    rw [failed] at changes
    rw [changes] at moved
    apply not_kept
    · rw [delete_object_ends changes]
      rintro ⟨value, done⟩
      cases done
    · rw [delete_object_ends changes]
      exact moved
  | unkept removed built plain refused =>
    have moved := moves fun kept isKept => by rw [removed] at isKept; cases isKept
    obtain ⟨⟨error, failed⟩, _⟩ := refused_unchanged refused
    rw [removed] at changes
    rw [built] at changes
    dsimp only at changes
    rw [failed] at changes
    rw [changes] at moved
    apply not_kept
    · rw [delete_object_plain plain changes]
      rintro ⟨value, done⟩
      cases done
    · rw [delete_object_plain plain changes]
      exact moved
  | unmarked marked moved refused =>
    have moved := moves moved
    generalize outcome : fm.changeObject env fi idx version object = changing at moved refused
    obtain ⟨result, changed⟩ := changing
    cases result with
    | error error =>
      apply not_kept
      · rw [delete_object_ends outcome]
        rintro ⟨value, done⟩
        cases done
      · rw [delete_object_ends outcome]
        exact moved
    | ok result =>
      obtain ⟨stored, left⟩ := delete_object_marked marked outcome
      apply not_kept
      · exact fun done => refused (stored.1 done)
      · rw [left refused]
        exact moved

theorem delete_object_kept (inside : idx < fm.versions.length)
    (whole : ¬ TornObject env fi fm idx version object) :
    KeptOnError fm (fm.deleteObject env fi idx version object) := by
  have changes := @change_object_eq env fi fm idx version object inside
  have data := @change_object_data env fi fm idx version object inside
  cases rewritten : rewrittenVersion env fi version object with
  | some kept =>
    rw [rewritten] at changes
    rw [changes] at data
    cases marked : fi.deleted with
    | false => exact kept_of_ok (by rw [delete_object_plain marked changes]; rfl)
    | true =>
      obtain ⟨stored, left⟩ := delete_object_marked marked changes
      by_cases storable : Storable env (fi.deleteEntry env) (fm.withEntry idx (kept.toShallow env))
      · obtain ⟨dir, done⟩ := stored.2 storable
        exact kept_of_ok done
      · intro _ _
        rw [left storable]
        refine ⟨?_, data⟩
        by_contra moved
        apply whole
        refine .unmarked marked ?_ ?_
        · intro other isOther
          rw [rewritten] at isOther
          cases isOther
          exact moved
        · rw [changes]
          exact storable
  | none =>
    rw [rewritten] at changes
    cases built : object.initFreeVersion env fi with
    | error error => exact absurd (.unbuilt rewritten built) whole
    | ok record =>
      cases marked : fi.deleted with
      | true =>
        have stores : Storable env (fi.deleteEntry env)
            (fm.changeObject env fi idx version object).2 := by
          by_contra refused
          apply whole
          refine .unmarked marked ?_ refused
          intro other isOther
          rw [rewritten] at isOther
          cases isOther
        rw [built] at changes
        cases record with
        | none | some record =>
          rw [changes] at stores
          obtain ⟨dir, done⟩ := (delete_object_marked marked changes).1.2 stores
          exact kept_of_ok done
      | false =>
        rw [built] at changes
        cases record with
        | none => exact kept_of_ok (by rw [delete_object_plain marked changes]; rfl)
        | some record =>
          dsimp only at changes
          have stores : Storable env record (fm.removeIdx idx) := by
            by_contra refused
            exact whole (.unkept rewritten built marked refused)
          rw [storable_added stores] at changes
          exact kept_of_ok (by rw [delete_object_plain marked changes]; rfl)

theorem finish_delete_kept_iff
    (scanned : deleteScan fi (fi.updatesVersion (fm.targetIsDeleteMarker fi)) fm.versions 0 none =
      .finished found) :
    KeptOnError fm (fm.finishDelete env fi found) ↔
      ¬ ∃ idx version object, fm.Selects env fi idx version object ∧
        TornObject env fi fm idx version object := by
  have selected : ∀ {idx version object}, fm.Selects env fi idx version object → found = some idx :=
    fun selects => by cases scanned.symm.trans selects.scanned; rfl
  have missing : KeptOnError fm (if fi.deleted then fm.addEntry env (fi.deleteEntry env)
      else (.error .fileVersionNotFound, fm)) := by
    split
    · exact kept_map add_version_filemata_kept
    · exact kept_of_same rfl
  have ends := @delete_scan_ends fi (fi.updatesVersion (fm.targetIsDeleteMarker fi))
    fm.versions 0 none
  rw [scanned] at ends
  unfold finishDelete
  cases found with
  | none =>
    refine ⟨fun _ => ?_, fun _ => missing⟩
    rintro ⟨idx, version, object, selects, _⟩
    cases selected selects
  | some idx =>
    obtain absent | ⟨offset, entry, isIdx, isEntry, isObject⟩ := ends
    · cases absent
    rw [Nat.zero_add] at isIdx
    subst isIdx
    dsimp only
    cases read : fm.getIdx env idx with
    | error error =>
      refine ⟨fun _ => ?_, fun _ => kept_of_same rfl⟩
      rintro ⟨other, version, object, selects, _⟩
      cases selected selects
      cases read.symm.trans selects.found
    | ok version =>
      dsimp only
      cases isBody : version.object with
      | none =>
        refine ⟨fun _ => ?_, fun _ => missing⟩
        rintro ⟨other, read', object, selects, _⟩
        cases selected selects
        cases read.symm.trans selects.found
        cases isBody.symm.trans selects.isObject
      | some object =>
        have selects : fm.Selects env fi idx version object := ⟨scanned, read, isBody⟩
        constructor
        · rintro kept ⟨_, _, _, selects', torn⟩
          obtain ⟨rfl, rfl, rfl⟩ := selects_unique selects selects'
          exact delete_object_torn isEntry isObject torn kept
        · intro whole
          exact delete_object_kept (get_idx_inside read) fun torn =>
            whole ⟨idx, version, object, selects, torn⟩

theorem update_marker_kept : KeptOnError fm (fm.updateMarker env fi idx) := by
  unfold updateMarker
  split
  · exact kept_of_same rfl
  · exact kept_map set_idx_kept

theorem update_object_kept : KeptOnError fm (fm.updateObject env fi idx) := by
  unfold updateObject
  split
  · exact kept_of_same rfl
  · exact kept_map set_idx_kept

theorem remove_marker_eq : fm.removeMarker env fi idx =
    if fi.replacesMarker then (fm.removeIdx idx).addEntry env (fi.deleteEntry env)
    else (.ok none, fm.removeIdx idx) := rfl

theorem remove_marker_kept_iff (inside : idx < fm.versions.length) :
    KeptOnError fm (fm.removeMarker env fi idx) ↔
      ¬ (fi.replacesMarker = true ∧ ¬ Storable env (fi.deleteEntry env) (fm.removeIdx idx)) := by
  have moved : (fm.removeIdx idx).versions ≠ fm.versions := by
    intro same
    have lengths := congrArg List.length same
    have shorter := length_eraseIdx_of_lt inside
    change (fm.versions.eraseIdx idx).length = _ at lengths
    omega
  rw [remove_marker_eq]
  cases fi.replacesMarker with
  | false =>
    exact ⟨fun _ torn => Bool.false_ne_true torn.1, fun _ => kept_of_ok rfl⟩
  | true =>
    unfold addEntry
    dsimp only
    by_cases storable : Storable env (fi.deleteEntry env) (fm.removeIdx idx)
    · rw [storable_added storable]
      exact ⟨fun _ torn => torn.2 storable, fun _ => kept_of_ok rfl⟩
    · obtain ⟨⟨error, failed⟩, same⟩ := refused_unchanged storable
      rw [failed, same]
      refine ⟨fun kept => absurd kept (not_kept ?_ moved), fun whole => absurd ⟨rfl, storable⟩ whole⟩
      rintro ⟨value, done⟩
      cases done

theorem torn_entry_iff {scan : DeleteScan}
    (scanned : deleteScan fi (fi.updatesVersion (fm.targetIsDeleteMarker fi)) fm.versions 0 none =
      scan) :
    TornEntry env fi fm ↔
      (∃ idx, scan = .removeMarker idx ∧ fi.replacesMarker = true ∧
        ¬ Storable env (fi.deleteEntry env) (fm.removeIdx idx)) ∨
      ∃ idx version object, scan = .finished (some idx) ∧ fm.Selects env fi idx version object ∧
        TornObject env fi fm idx version object := by
  subst scanned
  constructor
  · intro torn
    cases torn with
    | marker scanned replaces refused => exact .inl ⟨_, scanned, replaces, refused⟩
    | object selects torn => exact .inr ⟨_, _, _, selects.scanned, selects, torn⟩
  · rintro (⟨idx, scanned, replaces, refused⟩ | ⟨idx, version, object, _, selects, torn⟩)
    · exact .marker scanned replaces refused
    · exact .object selects torn

theorem delete_kept_iff (env : Runtime) (fi : FileInfo) (fm : FileMeta) :
    KeptOnError fm (fm.deleteVersion env fi) ↔ ¬ TornDelete env fi fm := by
  unfold deleteVersion TornDelete
  cases accepted : fi.validateForDeleteOperation env with
  | error error =>
    refine ⟨fun _ => ?_, fun _ => kept_of_same rfl⟩
    rintro ⟨valid, _⟩
    cases valid
  | ok done =>
    dsimp only
    cases free : fi.deleted && fi.tierFreeVersion with
    | true =>
      refine ⟨fun _ => ?_, fun _ => ?_⟩
      · rintro ⟨_, other, _⟩
        cases other
      · rw [if_pos rfl]
        unfold deleteFreeVersion
        split
        · exact kept_of_same rfl
        · exact kept_of_ok rfl
    | false =>
      rw [if_neg Bool.false_ne_true]
      have torn : (Except.ok done = (.ok () : Except Error Unit) ∧ false = false ∧
          TornEntry env fi fm) ↔ TornEntry env fi fm :=
        ⟨fun all => all.2.2, fun torn => ⟨rfl, rfl, torn⟩⟩
      have ends := @delete_scan_ends fi (fi.updatesVersion (fm.targetIsDeleteMarker fi))
        fm.versions 0 none
      rw [torn]
      cases scanned : deleteScan fi (fi.updatesVersion (fm.targetIsDeleteMarker fi)) fm.versions 0
        none with
      | notFree =>
        rw [torn_entry_iff scanned]
        exact ⟨fun _ => by simp, fun _ => kept_of_same rfl⟩
      | invalid =>
        rw [torn_entry_iff scanned]
        exact ⟨fun _ => by simp, fun _ => kept_of_same rfl⟩
      | updateMarker idx =>
        rw [torn_entry_iff scanned]
        exact ⟨fun _ => by simp, fun _ => update_marker_kept⟩
      | updateObject idx =>
        rw [torn_entry_iff scanned]
        exact ⟨fun _ => by simp, fun _ => update_object_kept⟩
      | removeMarker idx =>
        rw [scanned] at ends
        obtain ⟨offset, isIdx, inside⟩ := ends
        rw [Nat.zero_add] at isIdx
        subst isIdx
        rw [torn_entry_iff scanned]
        rw [remove_marker_kept_iff inside]
        simp
      | finished found =>
        rw [finish_delete_kept_iff scanned, torn_entry_iff scanned]
        apply not_congr
        constructor
        · rintro ⟨idx, version, object, selects, torn⟩
          refine .inr ⟨idx, version, object, ?_, selects, torn⟩
          rw [← scanned]
          exact selects.scanned
        · rintro (⟨idx, isMarker, _⟩ | ⟨idx, version, object, _, selects, torn⟩)
          · cases isMarker
          · exact ⟨idx, version, object, selects, torn⟩

/-- Exactly the torn edits leave something behind: an addition never does, an update only if it
had rewritten an entry before it stopped at another one, a delete only if it had changed the list
before the refused step. -/
theorem failed_edits_keep_iff (env : Runtime) (fi : FileInfo) (fm : FileMeta) :
    KeptOnError fm (fm.addVersion env fi) ∧
      (∀ replaceUserMetadata,
        KeptOnError fm (fm.updateObjectVersionWithOpts env fi replaceUserMetadata) ↔
          UndividedUpdate env fi replaceUserMetadata fm.versions) ∧
      (KeptOnError fm (fm.deleteVersion env fi) ↔ ¬ TornDelete env fi fm) :=
  ⟨add_version_kept, fun _ => update_kept_iff fm, delete_kept_iff env fi fm⟩

end Deleting

/-- A file whose only version is a delete marker. -/
def markedMeta : FileMeta :=
  (FileMeta.new.deleteVersion .sample
    { FileInfo.default with
      versionId := some 5
      deleted := true
      modTime := some ⟨1700000000000000000, OffsetDateTime.sample_in_range⟩ }).2

/-- The purge of a marker that is still to be replicated. -/
def purgeRequest : FileInfo :=
  { FileInfo.default with
    versionId := some 5
    markDeleted := true
    replicationStateInternal := some
      { ReplicationState.default with
        purgeTargets := KeyMap.empty.insert "arn" .pending } }

/-- The marker is gone although the purge has failed. -/
theorem failed_purge_drops_the_marker :
    ¬ ∀ (env : Runtime) (fi : FileInfo) (fm : FileMeta), KeptOnError fm (fm.deleteVersion env fi) := by
  intro claim
  have failed : (markedMeta.deleteVersion .sample purgeRequest).1 =
      .error (.other "file meta version invalid") := by decide +kernel
  have before : markedMeta.versions.length = 1 := by decide +kernel
  have after : (markedMeta.deleteVersion .sample purgeRequest).2.versions.length = 0 := by
    decide +kernel
  have kept := (claim .sample purgeRequest markedMeta _ failed).1
  rw [← kept, after] at before
  cases before

end Rustfs.Filemeta
