import Rustfs.Filemeta.VersionStore
import Rustfs.Library.Outcome

/-!
# Released data directories

A delete hands back the data directory of its object when the count of other versions with that
directory is zero. The count passes over every entry with the id of the object, and over all entries
when inline data is stored under that id; the directory is dead when no entry it passed over still
uses it. Every drive of a set runs the delete on its own version list, so a version may be a plain
object there that is a restored copy for the quorum. The removal of the directory itself is up to
the caller.
-/

namespace Rustfs.Filemeta

open List Library Library.MessagePack Library.Outcome Utils FileMeta FileMetaShallowVersion

variable {versions : List FileMetaShallowVersion} {found : Option Nat}

section Count

variable {env : Runtime} {fm : FileMeta} {dir : Uuid}

theorem count_data_dir_zero {count : Nat} (unused : countDataDir env dir versions count = 0) :
    count = 0 ∧ ∀ version ∈ versions, physicalDataDir env version ≠ .ok (some dir) := by
  induction versions generalizing count with
  | nil => exact ⟨unused, by simp⟩
  | cons version rest ih =>
    unfold countDataDir at unused
    split at unused
    · rename_i found isFound
      obtain ⟨zero, restUnused⟩ := ih unused
      split at zero
      · cases zero
      · rename_i apart
        refine ⟨zero, ?_⟩
        intro other member
        rcases mem_cons.1 member with rfl | later
        · rw [isFound]
          intro same
          exact apart (Except.ok.inj same)
        · exact restUnused other later
    · cases unused

/-- The count does not look at the entry. -/
def FileMeta.Overlooks (fm : FileMeta) (versionId : Option Uuid) (entry : FileMetaShallowVersion) :
    Prop :=
  fm.hasInlineData versionId = true ∨ entry.header.versionId = some (versionId.getD Uuid.nil)

theorem not_object_no_dir {version : FileMetaShallowVersion}
    (other : version.header.versionType ≠ .object) : physicalDataDir env version = .ok none := by
  exact if_pos other

theorem shared_count_zero {versionId : Option Uuid}
    (unshared : fm.sharedDataDirCount env versionId (some dir) = 0)
    {entry : FileMetaShallowVersion} (member : entry ∈ fm.versions)
    (uses : physicalDataDir env entry = .ok (some dir)) : fm.Overlooks versionId entry := by
  unfold sharedDataDirCount at unshared
  dsimp only at unshared
  split at unshared
  · rename_i inlined
    exact .inl inlined
  · right
    by_contra apart
    have isObject : entry.header.versionType = .object := by
      by_contra other
      rw [not_object_no_dir other] at uses
      cases uses
    apply (count_data_dir_zero unshared).2 entry _ uses
    simp [mem_filter, member, isObject, apart]

theorem has_inline_data_congr {left right : FileMeta} (same : left.data = right.data)
    (versionId : Option Uuid) : left.hasInlineData versionId = right.hasInlineData versionId := by
  unfold hasInlineData findInlineDataForVersion
  rw [same]

end Count

/-- The version the loop over the entries selects, and its object. -/
structure FileMeta.Selects (env : Runtime) (fi : FileInfo) (fm : FileMeta) (idx : Nat)
    (version : FileMetaVersion) (object : MetaObject) : Prop where
  scanned : deleteScan fi (fi.updatesVersion (fm.targetIsDeleteMarker fi)) fm.versions 0 none =
    .finished (some idx)
  found : fm.getIdx env idx = .ok version
  isObject : version.object = some object

/-- The version as an expired restore or a transition rewrites it. -/
def rewrittenVersion (env : Runtime) (fi : FileInfo) (version : FileMetaVersion)
    (object : MetaObject) : Option FileMetaVersion :=
  if fi.expireRestored then some { version with object := some object.removeRestoreHdrs }
  else if fi.transitionStatus = transitionComplete then
    some { version with object := some (object.setTransition env fi).resetInlineData }
  else none

/-- The entries the request leaves in place: all but the selected one, which may stay as it
is rewritten, and but those that a cleanup record or a delete marker takes the place of. -/
def FileMeta.leftEntries (env : Runtime) (fi : FileInfo) (idx : Nat) (version : FileMetaVersion)
    (object : MetaObject) (fm : FileMeta) : List FileMetaShallowVersion :=
  match rewrittenVersion env fi version object, fi.deleted with
  | some kept, false => kept.toShallow env :: fm.versions.eraseIdx idx
  | some kept, true => (fm.withEntry idx (kept.toShallow env)).besides fi.targetId
  | none, deleted =>
    match object.initFreeVersion env fi, deleted with
    | .ok (some record), false => (fm.removeIdx idx).besides (record.getVersionId env)
    | .ok (some record), true =>
      ((fm.removeIdx idx).addVersionFilemata env record).2.besides fi.targetId
    | _, false => (fm.removeIdx idx).versions
    | _, true => (fm.removeIdx idx).besides fi.targetId

/-- The other entries; where only a delete marker is written, but for the one that the marker takes
the place of. -/
def FileMeta.otherEntries (env : Runtime) (fi : FileInfo) (idx : Nat) (object : MetaObject)
    (fm : FileMeta) : List FileMetaShallowVersion :=
  match object.initFreeVersion env fi, fi.deleted with
  | .ok none, true => (fm.removeIdx idx).besides fi.targetId
  | _, _ => (fm.removeIdx idx).versions

/-- Before the call no other entry that the count passes over has the directory of the selected
object as its physical one, and a version that stays does not have it either once its restore
headers are gone or its transition is on record. -/
def FileMeta.Unshared (env : Runtime) (fi : FileInfo) (fm : FileMeta) : Prop :=
  ∀ idx version object, fm.Selects env fi idx version object →
    match rewrittenVersion env fi version object with
    | none => ∀ entry ∈ fm.otherEntries env fi idx object,
      fm.Overlooks object.versionId entry → physicalDataDir env entry ≠ .ok object.dataDir
    | some kept =>
      (fm.Overlooks object.versionId (kept.toShallow env) →
        physicalDataDir env (kept.toShallow env) ≠ .ok object.dataDir) ∧
      ∀ entry ∈ fm.versions.eraseIdx idx,
        fm.Overlooks object.versionId entry → physicalDataDir env entry ≠ .ok object.dataDir

/-- A request that writes no marker over a version it rewrites, and leaves no cleanup record. Only
a new entry can take the place of one that the count passed over. -/
def FileMeta.Leaves (env : Runtime) (fi : FileInfo) (fm : FileMeta) : Prop :=
  ∀ idx version object, fm.Selects env fi idx version object →
    match rewrittenVersion env fi version object with
    | none => object.initFreeVersion env fi = .ok none
    | some _ => fi.deleted = false

section Left

variable {env : Runtime} {fi : FileInfo} {fm changed last : FileMeta} {idx : Nat}
  {version : FileMetaVersion} {object : MetaObject} {dir : Uuid} {record : FileMetaVersion}

theorem free_version_bare (created : object.initFreeVersion env fi = .ok (some record)) :
    record.object = none ∧ (record.header env).versionType = .delete := by
  unfold MetaObject.initFreeVersion at created
  split at created
  · cases created
  split at created
  · obtain ⟨id, _, created⟩ := bind_eq_ok.1 created
    obtain ⟨destination, _, created⟩ := bind_eq_ok.1 created
    cases created
    exact ⟨rfl, rfl⟩
  · cases created

theorem delete_entry_bare (deleted : fi.deleted = true) :
    (fi.deleteEntry env).object = none ∧
      ((fi.deleteEntry env).header env).versionType = .delete ∧
      (fi.deleteEntry env).getVersionId env = fi.targetId := by
  unfold FileInfo.deleteEntry
  rw [deleted]
  exact ⟨rfl, rfl, rfl⟩

/-- The entries after the object itself was changed. -/
structure Changed (env : Runtime) (fm changed : FileMeta) (left : List FileMetaShallowVersion) :
    Prop where
  data : changed.data = fm.data
  kept : ∀ entry ∈ changed.versions, entry ∈ left ∨ entry.header.versionType ≠ .object
  whole : ∀ entry ∈ left, entry ∈ changed.versions

theorem changed_of_perm {records left : List FileMetaShallowVersion} (data : changed.data = fm.data)
    (perm : changed.versions.Perm (records ++ left))
    (bare : ∀ record ∈ records, record.header.versionType ≠ .object) :
    Changed env fm changed left where
  data := data
  kept entry member := by
    rcases mem_append.1 (perm.mem_iff.1 member) with isRecord | isLeft
    · exact .inr (bare entry isRecord)
    · exact .inl isLeft
  whole entry isLeft := perm.mem_iff.2 (mem_append_right _ isLeft)

theorem changed_added (added : Added env fm record changed)
    (bare : record.object = none) (marker : (record.header env).versionType = .delete) :
    Changed env fm changed (fm.besides (record.getVersionId env)) := by
  apply @changed_of_perm env fm changed [record.toShallow env] _ (added_data added)
    (added_perm added bare)
  intro entry member
  rw [mem_singleton.1 member]
  show (record.header env).versionType ≠ .object
  rw [marker]
  decide

theorem change_object_eq (inside : idx < fm.versions.length) :
    fm.changeObject env fi idx version object =
      match rewrittenVersion env fi version object with
      | some kept => (.ok (.ok ()), fm.withEntry idx (kept.toShallow env))
      | none =>
        match object.initFreeVersion env fi with
        | .error error => (.error error, fm.removeIdx idx)
        | .ok none => (.ok (.ok ()), fm.removeIdx idx)
        | .ok (some record) =>
          (.ok ((fm.removeIdx idx).addVersionFilemata env record).1,
            ((fm.removeIdx idx).addVersionFilemata env record).2) := by
  unfold changeObject rewrittenVersion
  split
  · rw [set_idx_eq inside]
  split
  · rw [set_idx_eq inside]
  · rfl

theorem removed_idx_changed (fm : FileMeta) (idx : Nat) :
    Changed env fm (fm.removeIdx idx) (fm.removeIdx idx).versions :=
  @changed_of_perm env fm _ [] _ rfl (List.Perm.refl _) (by simp)

theorem rewritten_changed (inside : idx < fm.versions.length) (kept : FileMetaVersion) :
    Changed env fm (fm.withEntry idx (kept.toShallow env))
      (kept.toShallow env :: fm.versions.eraseIdx idx) :=
  @changed_of_perm env fm _ [] _ rfl (with_entry_perm inside _) (by simp)

theorem left_without_marker (unmarked : fi.deleted = false) (inside : idx < fm.versions.length)
    (done : fm.changeObject env fi idx version object = (.ok (.ok ()), changed)) :
    Changed env fm changed (fm.leftEntries env fi idx version object) := by
  rw [change_object_eq inside] at done
  unfold leftEntries
  rw [unmarked]
  cases rewritten : rewrittenVersion env fi version object with
  | some kept =>
    rw [rewritten] at done
    cases done
    exact rewritten_changed inside kept
  | none =>
    rw [rewritten] at done
    cases created : object.initFreeVersion env fi with
    | error error =>
      rw [created] at done
      cases done
    | ok record =>
      rw [created] at done
      cases record with
      | none =>
        cases done
        exact removed_idx_changed fm idx
      | some record =>
        obtain ⟨bare, marker⟩ := free_version_bare created
        obtain ⟨succeeded, rfl⟩ := Prod.mk.inj done
        rcases add_version_filemata_cases env (fm.removeIdx idx) record with
          ⟨error, failed, _⟩ | ⟨_, _, added⟩
        · rw [failed] at succeeded
          cases succeeded
        · have changes := changed_added added bare marker
          exact ⟨changes.data, changes.kept, changes.whole⟩

section

variable {result : Except Error Unit} (marked : fi.deleted = true)
  (inside : idx < fm.versions.length)
  (done : fm.changeObject env fi idx version object = (.ok result, changed))

include marked inside done

theorem left_with_marker :
    changed.data = fm.data ∧
      fm.leftEntries env fi idx version object = changed.besides fi.targetId := by
  rw [change_object_eq inside] at done
  unfold leftEntries
  rw [marked]
  cases rewritten : rewrittenVersion env fi version object with
  | some kept =>
    rw [rewritten] at done
    cases done
    exact ⟨rfl, rfl⟩
  | none =>
    rw [rewritten] at done
    cases created : object.initFreeVersion env fi with
    | error error =>
      rw [created] at done
      cases done
    | ok record =>
      rw [created] at done
      cases record with
      | none =>
        cases done
        exact ⟨rfl, rfl⟩
      | some record =>
        obtain ⟨_, rfl⟩ := Prod.mk.inj done
        refine ⟨?_, rfl⟩
        rcases add_version_filemata_cases env (fm.removeIdx idx) record with
          ⟨error, _, same⟩ | ⟨_, _, added⟩
        · rw [same]
          rfl
        · have same := added_data added
          exact same

theorem changed_with_marker (added : Added env changed (fi.deleteEntry env) last) :
    Changed env fm last (fm.leftEntries env fi idx version object) := by
  obtain ⟨data, isLeft⟩ := left_with_marker marked inside done
  obtain ⟨bare, marker, sameId⟩ := @delete_entry_bare env fi marked
  have changes := changed_added added bare marker
  rw [sameId] at changes
  rw [isLeft]
  exact ⟨changes.data.trans data, changes.kept, changes.whole⟩

end

/-- An entry that stays is one of the other entries or the selected one as it is rewritten, or it is
the cleanup record. -/
theorem left_entries_within (inside : idx < fm.versions.length) {entry : FileMetaShallowVersion}
    (isLeft : entry ∈ fm.leftEntries env fi idx version object) :
    match rewrittenVersion env fi version object with
    | none => entry ∈ fm.otherEntries env fi idx object ∨ entry.header.versionType ≠ .object
    | some kept => entry = kept.toShallow env ∨ entry ∈ fm.versions.eraseIdx idx := by
  unfold leftEntries at isLeft
  unfold otherEntries
  cases rewritten : rewrittenVersion env fi version object with
  | some kept =>
    rw [rewritten] at isLeft
    apply mem_cons.1
    cases marked : fi.deleted with
    | false =>
      rw [marked] at isLeft
      exact isLeft
    | true =>
      rw [marked] at isLeft
      exact (with_entry_perm inside _).mem_iff.1 ((besides_sublist _ _).mem isLeft)
  | none =>
    rw [rewritten] at isLeft
    cases created : object.initFreeVersion env fi with
    | error error =>
      rw [created] at isLeft
      cases marked : fi.deleted with
      | false =>
        rw [marked] at isLeft
        exact .inl isLeft
      | true =>
        rw [marked] at isLeft
        exact .inl ((besides_sublist _ _).mem isLeft)
    | ok record =>
      rw [created] at isLeft
      cases record with
      | none =>
        cases marked : fi.deleted with
        | false | true =>
          rw [marked] at isLeft
          exact .inl isLeft
      | some record =>
        cases marked : fi.deleted with
        | false =>
          rw [marked] at isLeft
          exact .inl ((besides_sublist _ _).mem isLeft)
        | true =>
          rw [marked] at isLeft
          have isLeft := (besides_sublist _ _).mem isLeft
          obtain ⟨bare, isMarker⟩ := free_version_bare created
          rcases add_version_filemata_cases env (fm.removeIdx idx) record with
            ⟨error, _, same⟩ | ⟨_, _, added⟩
          · rw [same] at isLeft
            exact .inl isLeft
          · rcases mem_cons.1 ((added_perm added bare).mem_iff.1 isLeft) with rfl | isOther
            · refine .inr ?_
              show (record.header env).versionType ≠ .object
              rw [isMarker]
              decide
            · exact .inl ((besides_sublist _ _).mem isOther)

theorem delete_object_released (selects : fm.Selects env fi idx version object)
    (done : fm.deleteObject env fi idx version object = (.ok (some dir), last)) :
    Changed env fm last (fm.leftEntries env fi idx version object) ∧ object.dataDir = some dir ∧
      last.sharedDataDirCount env object.versionId (some dir) = 0 := by
  have inside := get_idx_inside selects.found
  have released : ∀ counted : FileMeta, counted.releasedDataDir env object = some dir →
      object.dataDir = some dir ∧
        counted.sharedDataDirCount env object.versionId (some dir) = 0 := by
    intro counted isReleased
    unfold releasedDataDir at isReleased
    split at isReleased
    · cases isReleased
    · rename_i unshared
      rw [isReleased] at unshared
      exact ⟨isReleased, Nat.eq_zero_of_not_pos unshared⟩
  unfold deleteObject at done
  split at done
  · cases done
  rename_i result changed isChanged
  by_cases marked : fi.deleted = true
  · simp only [marked, if_true] at done
    obtain ⟨succeeded, rfl⟩ := Prod.mk.inj done
    rcases add_version_filemata_cases env changed (fi.deleteEntry env) with
      ⟨error, failed, _⟩ | ⟨ok, _, added⟩
    · rw [failed] at succeeded
      cases succeeded
    · rw [ok] at succeeded
      exact ⟨changed_with_marker marked inside isChanged added,
        released _ (Except.ok.inj succeeded)⟩
  · simp only [marked, if_false, Bool.false_eq_true] at done
    obtain ⟨succeeded, rfl⟩ := Prod.mk.inj done
    cases result with
    | error error => cases succeeded
    | ok result =>
      exact ⟨left_without_marker (Bool.eq_false_iff.2 marked) inside isChanged,
        released _ (Except.ok.inj succeeded)⟩

theorem map_none_not_some {outcome : Except Error Unit × FileMeta} :
    ((outcome.1.map fun _ => none : Except Error (Option Uuid)), outcome.2) ≠
      (.ok (some dir), last) := by
  intro same
  have first := congrArg Prod.fst same
  cases result : outcome.1 with
  | error error | ok done =>
    rw [result] at first
    cases first

theorem finish_delete_released (done : fm.finishDelete env fi found = (.ok (some dir), last)) :
    ∃ idx version object, found = some idx ∧ fm.getIdx env idx = .ok version ∧
      version.object = some object ∧
      fm.deleteObject env fi idx version object = (.ok (some dir), last) := by
  have notMissing : (if fi.deleted then fm.addEntry env (fi.deleteEntry env)
      else (.error .fileVersionNotFound, fm)) ≠ (.ok (some dir), last) := by
    split
    · exact map_none_not_some
    · intro same
      cases same
  unfold finishDelete at done
  dsimp only at done
  split at done
  · exact absurd done notMissing
  rename_i idx
  split at done
  · cases done
  rename_i version isVersion
  split at done
  · exact absurd done notMissing
  rename_i object isObject
  exact ⟨idx, version, object, rfl, isVersion, isObject, done⟩

theorem remove_marker_released : fm.removeMarker env fi idx ≠ (.ok (some dir), last) := by
  unfold removeMarker
  split
  · exact map_none_not_some
  · intro same
    cases same

theorem update_marker_released : fm.updateMarker env fi idx ≠ (.ok (some dir), last) := by
  unfold updateMarker
  split
  · intro same
    cases same
  · exact map_none_not_some

theorem update_object_released : fm.updateObject env fi idx ≠ (.ok (some dir), last) := by
  unfold updateObject
  split
  · intro same
    cases same
  · exact map_none_not_some

theorem delete_version_released (released : fm.deleteVersion env fi = (.ok (some dir), last)) :
    ∃ idx version object, fm.Selects env fi idx version object ∧
      fm.deleteObject env fi idx version object = (.ok (some dir), last) := by
  unfold deleteVersion at released
  split at released
  · cases released
  split at released
  · unfold deleteFreeVersion at released
    split at released
    all_goals cases released
  split at released
  · cases released
  · cases released
  · exact absurd released update_marker_released
  · exact absurd released remove_marker_released
  · exact absurd released update_object_released
  · rename_i found scanned
    obtain ⟨idx, version, object, rfl, isVersion, isObject, done⟩ := finish_delete_released released
    exact ⟨idx, version, object, ⟨scanned, isVersion, isObject⟩, done⟩

theorem selects_unique {idx' : Nat} {version' : FileMetaVersion} {object' : MetaObject}
    (selects : fm.Selects env fi idx version object)
    (selects' : fm.Selects env fi idx' version' object') :
    idx' = idx ∧ version' = version ∧ object' = object := by
  have sameIdx := selects'.scanned.symm.trans selects.scanned
  cases sameIdx
  have sameVersion := selects'.found.symm.trans selects.found
  cases sameVersion
  have sameObject := selects'.isObject.symm.trans selects.isObject
  cases sameObject
  exact ⟨rfl, rfl, rfl⟩

end Left

def FileMeta.Dead (env : Runtime) (dir : Uuid) (fm : FileMeta) : Prop :=
  ∀ version ∈ fm.versions, physicalDataDir env version ≠ .ok (some dir)

section Released

variable {env : Runtime} {fi : FileInfo} {fm last : FileMeta} {dir : Uuid} {idx : Nat}
  {version : FileMetaVersion} {object : MetaObject}

theorem unshared_released_dead (selects : fm.Selects env fi idx version object)
    (done : fm.deleteObject env fi idx version object = (.ok (some dir), last))
    (unused : fm.Unshared env fi) : last.Dead env dir := by
  intro entry member uses
  obtain ⟨changes, isDir, unshared⟩ := delete_object_released selects done
  have unused := unused idx version object selects
  have overlooked := shared_count_zero unshared member uses
  unfold FileMeta.Overlooks at overlooked
  rw [has_inline_data_congr changes.data] at overlooked
  have notObject : entry.header.versionType ≠ .object → False := by
    intro other
    rw [not_object_no_dir other] at uses
    cases uses
  rw [← isDir] at uses
  rcases changes.kept entry member with isLeft | other
  · have within := left_entries_within (get_idx_inside selects.found) isLeft
    cases rewritten : rewrittenVersion env fi version object with
    | none =>
      rw [rewritten] at unused within
      rcases within with isOther | other
      · exact unused entry isOther overlooked uses
      · exact notObject other
    | some kept =>
      rw [rewritten] at unused within
      rcases within with rfl | isOther
      · exact unused.1 overlooked uses
      · exact unused.2 entry isOther overlooked uses
  · exact notObject other

theorem dead_released_unshared (selects : fm.Selects env fi idx version object)
    (done : fm.deleteObject env fi idx version object = (.ok (some dir), last))
    (leaves : fm.Leaves env fi) (dead : last.Dead env dir) : fm.Unshared env fi := by
  intro idx' version' object' selects'
  obtain ⟨rfl, rfl, rfl⟩ := selects_unique selects selects'
  obtain ⟨changes, isDir, _⟩ := delete_object_released selects done
  have leaves := leaves _ _ _ selects
  have unused : ∀ entry ∈ fm.leftEntries env fi idx' version' object',
      physicalDataDir env entry ≠ .ok object'.dataDir := by
    intro entry isLeft
    rw [isDir]
    exact dead entry (changes.whole entry isLeft)
  unfold leftEntries at unused
  unfold otherEntries
  cases rewritten : rewrittenVersion env fi version' object' with
  | none =>
    rw [rewritten] at leaves unused
    rw [show object'.initFreeVersion env fi = .ok none from leaves] at unused ⊢
    intro entry isOther _
    apply unused entry
    cases marked : fi.deleted with
    | false | true =>
      rw [marked] at isOther
      exact isOther
  | some kept =>
    rw [rewritten] at leaves unused
    rw [show fi.deleted = false from leaves] at unused
    exact ⟨fun _ => unused _ mem_cons_self, fun entry isOther _ => unused entry (mem_cons_of_mem _ isOther)⟩

end Released

/-- An object of one byte in a data directory of its own. -/
def dirInfo : FileInfo :=
  { FileInfo.default with
    versionId := some 5
    dataDir := some 9
    modTime := some ⟨1700000000000000000, OffsetDateTime.sample_in_range⟩
    size := 1 }

def dirMeta : FileMeta := (FileMeta.new.addVersion .sample dirInfo).2

def deleteRequest (expireRestored : Bool) : FileInfo :=
  { FileInfo.default with versionId := some 5, expireRestored }

end Rustfs.Filemeta
