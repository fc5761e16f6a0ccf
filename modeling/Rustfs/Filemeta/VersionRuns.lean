import Rustfs.Filemeta.StorableVersion
import Mathlib.Data.List.Induction

/-!
# The invariant of a version list

The entries are ordered, denote different versions, agree with their bodies and are not
too many. Every edit of the list keeps this, if what it writes can be read back, and so
does every run of operations with requests that the codec can hold.
-/

namespace Rustfs.Filemeta

open List Library Library.MessagePack Utils FileMetaVersion

/-- The entry of a body that is read back, with its maps in the order of some walk. -/
def FileMetaShallowVersion.Stored (env : Runtime) (entry : FileMetaShallowVersion) : Prop :=
  ∃ (version : FileMetaVersion) (count : Nat) (walk : Walk), count < 2 ^ 32 ∧
    version.Storable count ∧ entry = ⟨version.header env, version.marshalMsg walk⟩

def denotedIds (versions : List FileMetaShallowVersion) : List Uuid :=
  versions.map fun entry => entry.header.denotes

/-- What does not depend on the order of the entries. -/
structure EntriesSound (env : Runtime) (versions : List FileMetaShallowVersion) : Prop where
  stored : ∀ entry ∈ versions, entry.Stored env
  distinct : (denotedIds versions).Nodup
  bounded : versions.length ≤ env.objectMaxVersions

def InOrder (versions : List FileMetaShallowVersion) : Prop :=
  versions.Pairwise fun earlier later => later.header.sortsBefore earlier.header = false

structure FileMeta.WellFormed (env : Runtime) (fm : FileMeta) : Prop extends
    EntriesSound env fm.versions where
  ordered : InOrder fm.versions

variable {entry : FileMetaShallowVersion}

section Lists

variable {env : Runtime} {versions others : List FileMetaShallowVersion} {fm : FileMeta}
  {version : FileMetaVersion} {count idx : Nat}

theorem EntriesSound.perm (sound : EntriesSound env versions) (same : others.Perm versions) :
    EntriesSound env others where
  stored := fun entry member => sound.stored entry (same.mem_iff.1 member)
  distinct := (same.map _).nodup_iff.2 sound.distinct
  bounded := by
    rw [same.length_eq]
    exact sound.bounded

theorem EntriesSound.sublist (sound : EntriesSound env versions) (fewer : others.Sublist versions) :
    EntriesSound env others where
  stored := fun entry member => sound.stored entry (fewer.subset member)
  distinct := sound.distinct.sublist (fewer.map _)
  bounded := Nat.le_trans fewer.length_le sound.bounded

theorem cmp_ne_gt_iff (left right : FileMetaShallowVersion) :
    decide (cmpShallowVersionsForOrder left right ≠ .gt) = true ↔
      right.header.sortsBefore left.header = false := by
  unfold cmpShallowVersionsForOrder
  by_cases before : left.header.sortsBefore right.header = true
  · simp [before, FileMetaVersionHeader.sorts_before_asymm before]
  · by_cases after : right.header.sortsBefore left.header = true
    all_goals simp [before, after]

theorem sort_versions_in_order (versions : List FileMetaShallowVersion) :
    InOrder (sortVersions versions) := by
  have sorted : (sortVersions versions).Pairwise fun left right =>
      decide (cmpShallowVersionsForOrder left right ≠ .gt) = true := by
    apply pairwise_mergeSort
    · intro first second third earlier later
      rw [cmp_ne_gt_iff] at *
      rw [← Bool.not_eq_true]
      intro before
      have between := FileMetaVersionHeader.sorts_before_of_not_of later before
      rw [between] at earlier
      cases earlier
    · intro first second
      rw [Bool.or_eq_true, cmp_ne_gt_iff, cmp_ne_gt_iff]
      by_cases before : second.header.sortsBefore first.header = true
      · exact .inr (FileMetaVersionHeader.sorts_before_asymm before)
      · exact .inl (Bool.eq_false_iff.2 before)
  exact sorted.imp fun compared => (cmp_ne_gt_iff _ _).1 compared

theorem well_formed_sorted (sound : EntriesSound env versions) (fm : FileMeta) :
    { fm with versions := sortVersions versions : FileMeta }.WellFormed env where
  toEntriesSound := sound.perm (sort_versions_perm versions)
  ordered := sort_versions_in_order versions

theorem FileMeta.WellFormed.remove (formed : fm.WellFormed env) (idx : Nat) :
    (fm.removeIdx idx).WellFormed env where
  toEntriesSound := formed.toEntriesSound.sublist (eraseIdx_sublist _ _)
  ordered := formed.ordered.sublist (eraseIdx_sublist _ _)

theorem FileMeta.WellFormed.rewrite (formed : fm.WellFormed env)
    (isEntry : fm.versions[idx]? = some entry) (storable : version.Storable count)
    (room : count < 2 ^ 32)
    (same : (version.getVersionId env).getD Uuid.nil = entry.header.denotes) :
    (fm.withEntry idx (version.toShallow env)).WellFormed env := by
  obtain ⟨inside, isThere⟩ := List.getElem?_eq_some_iff.1 isEntry
  apply well_formed_sorted _ fm
  refine ⟨?_, ?_, ?_⟩
  · intro other member
    rcases mem_or_eq_of_mem_set member with old | rfl
    · exact formed.stored other old
    · exact ⟨version, count, env.walk, room, storable, rfl⟩
  · have sameIds : denotedIds (fm.versions.set idx (version.toShallow env)) =
        denotedIds fm.versions := by
      have inIds : idx < (fm.versions.map fun entry => entry.header.denotes).length := by
        rw [length_map]
        exact inside
      have sameId : (version.toShallow env).header.denotes =
          (fm.versions.map fun entry => entry.header.denotes)[idx] := by
        rw [getElem_map, isThere]
        exact same
      unfold denotedIds
      rw [map_set, sameId, set_getElem_self]
    rw [sameIds]
    exact formed.distinct
  · rw [length_set]
    exact formed.bounded

end Lists

section Adding

variable {env : Runtime} {fm next : FileMeta} {version : FileMetaVersion} {count idx : Nat}
  {id : Option Uuid}

theorem is_null_id_iff (id : Option Uuid) : isNullId id = true ↔ id.getD Uuid.nil = Uuid.nil := by
  cases id with
  | none | some given => simp [isNullId]

theorem existing_test_iff (id held : Option Uuid) :
    (if isNullId id then isNullId held else decide (held = id)) = true ↔
      held.getD Uuid.nil = id.getD Uuid.nil := by
  by_cases null : isNullId id = true
  · rw [if_pos null, is_null_id_iff, (is_null_id_iff id).1 null]
  · rw [if_neg null, decide_eq_true_eq]
    constructor
    · exact fun same => congrArg (Option.getD · Uuid.nil) same
    · intro same
      rw [is_null_id_iff] at null
      cases id with
      | none => exact absurd rfl null
      | some given =>
        cases held with
        | none => exact absurd same.symm null
        | some other => exact congrArg some same

theorem existing_idx_eq (id : Option Uuid) (fm : FileMeta) :
    fm.existingIdx id = fm.versions.findIdx? fun entry =>
      if isNullId id then isNullId entry.header.versionId
      else decide (entry.header.versionId = id) := by
  unfold FileMeta.existingIdx
  split
  all_goals rfl

theorem existing_idx_none (absent : fm.existingIdx id = none) :
    ∀ entry ∈ fm.versions, entry.header.denotes ≠ id.getD Uuid.nil := by
  intro entry member same
  rw [existing_idx_eq, findIdx?_eq_none_iff] at absent
  have missed := absent entry member
  rw [(existing_test_iff id entry.header.versionId).2 same] at missed
  cases missed

theorem existing_idx_some (present : fm.existingIdx id = some idx) :
    ∃ entry, fm.versions[idx]? = some entry ∧ entry.header.denotes = id.getD Uuid.nil := by
  rw [existing_idx_eq, findIdx?_eq_some_iff_getElem] at present
  obtain ⟨inside, found, _⟩ := present
  exact ⟨fm.versions[idx], getElem?_eq_getElem inside, (existing_test_iff id _).1 found⟩

theorem FileMeta.WellFormed.read (formed : fm.WellFormed env) (found : fm.getIdx env idx = .ok version) :
    ∃ entry, fm.versions[idx]? = some entry ∧ version.Storable version.mapEntries ∧
      (version.getVersionId env).getD Uuid.nil = entry.header.denotes ∧
      version.versionType = entry.header.versionType := by
  obtain ⟨entry, isEntry, parsed⟩ := get_idx_ok found
  obtain ⟨stored, bound, walk, room, storable, rfl⟩ :=
    formed.stored entry (mem_of_getElem? isEntry)
  rw [storable.parse room] at parsed
  cases parsed
  exact ⟨_, isEntry, storable.normal.exact, normal_get_version_id env stored, rfl⟩

theorem FileMeta.WellFormed.insert (formed : fm.WellFormed env) (storable : version.Storable count)
    (fits : count < 2 ^ 32) (absent : fm.existingIdx (version.getVersionId env) = none)
    (room : fm.versions.length < env.objectMaxVersions) :
    (fm.insertShallow (version.toShallow env)).WellFormed env := by
  have permuted := insert_shallow_perm fm (version.toShallow env)
  refine ⟨EntriesSound.perm ⟨?_, ?_, ?_⟩ permuted, sort_versions_in_order _⟩
  · exact forall_mem_cons.2 ⟨⟨version, count, env.walk, fits, storable, rfl⟩, formed.stored⟩
  · unfold denotedIds
    rw [map_cons, nodup_cons]
    refine ⟨?_, formed.distinct⟩
    intro member
    obtain ⟨entry, isEntry, same⟩ := mem_map.1 member
    exact existing_idx_none absent entry isEntry same
  · exact room

theorem FileMeta.WellFormed.added (formed : fm.WellFormed env) (storable : version.Storable count)
    (room : count + 6 < 2 ^ 32) (added : Added env fm version next) : next.WellFormed env := by
  cases added with
  | inserted absent free => exact formed.insert storable (by omega) absent free
  | replaced present found _ preserved =>
    obtain ⟨entry, isEntry, same⟩ := existing_idx_some present
    obtain ⟨_, _, existing, _, _⟩ := formed.read found
    obtain ⟨stored, sameId⟩ := preserve_storable existing storable preserved
    exact formed.rewrite isEntry stored room (by rw [sameId]; exact same.symm)

theorem FileMeta.WellFormed.add_filemata (formed : fm.WellFormed env)
    (storable : version.valid = true → version.Storable count) (room : count + 6 < 2 ^ 32) :
    (fm.addVersionFilemata env version).2.WellFormed env := by
  rcases add_version_filemata_cases env fm version with ⟨_, _, same⟩ | ⟨_, valid, added⟩
  · rw [same]
    exact formed
  · exact formed.added (storable valid) room added

end Adding

/-- The request fits, and what it writes leaves room in a map. -/
structure FileInfo.Fits (env : Runtime) (fi : FileInfo) : Prop where
  writable : fi.Writable env
  room : fi.writtenEntries + 32 < 2 ^ 32

variable {count : Nat}

section AddVersion

variable {env : Runtime} {fi : FileInfo} {fm : FileMeta} {version : FileMetaVersion}

theorem stored_request_sublist (fi : FileInfo) :
    (FileMeta.storedRequest fi).metadata.entries.Sublist fi.metadata.entries := by
  exact (filter_sublist.trans filter_sublist).trans filter_sublist

theorem stored_request_fits (fits : fi.Fits env) : (FileMeta.storedRequest fi).Fits env := by
  have fewer := stored_request_sublist fi
  refine ⟨?_, ?_⟩
  · exact { fits.writable with
      metadata := fun entry member => fits.writable.metadata entry (fewer.subset member) }
  · have less := fewer.length_le
    have room := fits.room
    unfold FileInfo.writtenEntries at room ⊢
    change 3 * _ + 2 * fi.resetCount + 2048 + 32 < _
    omega

theorem add_inner_well_formed (formed : fm.WellFormed env) (fits : fi.Fits env)
    (timely : (FileMeta.storedRequest fi).isStorageDeleteMarker = false →
      fi.modTime ≠ some .unixEpoch) : (fm.addVersionInner env fi).2.WellFormed env := by
  have stored := stored_request_fits fits
  have room := stored.room
  have added := formed.add_filemata
    (from_file_info_storable stored.writable timely) (by omega)
  unfold FileMeta.addVersionInner
  dsimp only
  split
  · exact added
  split
  · exact formed
  split
  · rename_i _ last isLast
    rw [isLast] at added
    exact ⟨added.toEntriesSound, added.ordered⟩
  · rename_i _ _ last isLast
    rw [isLast] at added
    exact added

theorem overwritten_object_storable {id : Uuid} {object : MetaObject}
    (storable : object.Storable count)
    (made : fm.overwrittenObjectFreeVersion env fi id object = .ok (some version))
    (valid : version.valid = true) : version.Storable 12 := by
  unfold FileMeta.overwrittenObjectFreeVersion at made
  dsimp only at made
  split at made
  · obtain ⟨_, _, same⟩ := Outcome.map_eq_ok.1 made
    cases same
  split at made
  · cases made
  obtain ⟨_, _, made⟩ := Outcome.bind_eq_ok.1 made
  obtain ⟨_, _, made⟩ := Outcome.bind_eq_ok.1 made
  split at made
  · cases made
  obtain ⟨_, _, made⟩ := Outcome.bind_eq_ok.1 made
  obtain ⟨free, isFree, made⟩ := Outcome.bind_eq_ok.1 made
  obtain ⟨created, isCreated, made⟩ := Outcome.bind_eq_ok.1 made
  cases made
  cases free with
  | none => cases isCreated
  | some free =>
    cases isCreated
    exact free_version_storable (canonicalize_transition_sized storable.metaSys) storable.modTime
      isFree valid

theorem overwritten_tier_storable (formed : fm.WellFormed env)
    (made : fm.overwrittenTierFreeVersion env fi = .ok (some version))
    (valid : version.valid = true) : version.Storable 12 := by
  unfold FileMeta.overwrittenTierFreeVersion at made
  split at made
  · cases made
  obtain ⟨id, _, made⟩ := Outcome.bind_eq_ok.1 made
  cases id with
  | none => cases made
  | some id =>
    dsimp only at made
    split at made
    · cases made
    rename_i existing isExisting
    obtain ⟨old, parsed, made⟩ := Outcome.bind_eq_ok.1 made
    obtain ⟨stored, bound, walk, room, storable, rfl⟩ :=
      formed.stored existing (mem_of_find?_eq_some isExisting)
    rw [storable.parse room] at parsed
    cases parsed
    have normal := storable.normal
    generalize stored.normal = body at made normal
    cases normal with
    | marker _ => cases made
    | object isObject => exact overwritten_object_storable isObject made valid

theorem add_version_well_formed (formed : fm.WellFormed env) (fits : fi.Fits env)
    (timely : (FileMeta.storedRequest fi).isStorageDeleteMarker = false →
      fi.modTime ≠ some .unixEpoch) : (fm.addVersion env fi).2.WellFormed env := by
  have inner := add_inner_well_formed formed fits timely
  unfold FileMeta.addVersion
  split
  · exact formed
  · exact inner
  · rename_i free made
    split
    · exact formed
    · rename_i next isNext
      rw [isNext] at inner
      have record := inner.add_filemata (overwritten_tier_storable formed made) (by decide)
      split
      · exact formed
      · rename_i last isLast
        rw [isLast] at record
        exact record

end AddVersion

/-- Every body in the list has room for what a request writes. -/
def FileMeta.RoomFor (env : Runtime) (fi : FileInfo) (fm : FileMeta) : Prop :=
  ∀ entry ∈ fm.versions, ∀ body, entry.parseVersionMeta env = .ok body →
    body.mapEntries + fi.writtenEntries + 32 < 2 ^ 32

/-- The list holds an object of the version that a request names. -/
def FileMeta.HoldsObject (fi : FileInfo) (fm : FileMeta) : Prop :=
  ∃ entry ∈ fm.versions, entry.header.versionType = .object ∧
    entry.header.denotes = fi.versionId.getD Uuid.nil

section Update

variable {env : Runtime} {fi : FileInfo} {fm : FileMeta} {replaceUserMetadata : Bool}
  {versions : List FileMetaShallowVersion} {entry updated : FileMetaShallowVersion} {idx : Nat}

theorem update_entries_absent
    (absent : ∀ entry ∈ versions, entry.header.denotes ≠ fi.versionId.getD Uuid.nil) :
    updateEntries env fi replaceUserMetadata versions = (.ok (), versions) := by
  induction versions with
  | nil => rfl
  | cons entry versions ih =>
    rw [forall_mem_cons] at absent
    have other : entry.header.versionId.getD Uuid.nil ≠ fi.versionId.getD Uuid.nil := absent.1
    have otherId : entry.header.versionId ≠ fi.versionId :=
      fun same => other (congrArg (Option.getD · Uuid.nil) same)
    unfold updateEntries
    dsimp only
    rw [ih absent.2, if_neg other, if_neg otherId]
    cases entry.header.versionType with
    | invalid | object | delete | legacy => rfl

theorem update_entries_cases (env : Runtime) (fi : FileInfo) (replaceUserMetadata : Bool)
    (distinct : (denotedIds versions).Nodup) :
    (updateEntries env fi replaceUserMetadata versions).2 = versions ∨
      ∃ idx entry updated, versions[idx]? = some entry ∧ entry.header.versionType = .object ∧
        entry.header.denotes = fi.versionId.getD Uuid.nil ∧
        entry.updated env fi replaceUserMetadata = .ok updated ∧
        updateEntries env fi replaceUserMetadata versions = (.ok (), versions.set idx updated) := by
  induction versions with
  | nil => exact .inl rfl
  | cons entry versions ih =>
    have distinctRest := nodup_cons.1 distinct
    have skipped : ∀ rest, rest = updateEntries env fi replaceUserMetadata versions →
        (updateEntries env fi replaceUserMetadata (entry :: versions) = (rest.1, entry :: rest.2)) →
        (updateEntries env fi replaceUserMetadata (entry :: versions)).2 = entry :: versions ∨
        ∃ idx found updated, (entry :: versions)[idx]? = some found ∧
          found.header.versionType = .object ∧
          found.header.denotes = fi.versionId.getD Uuid.nil ∧
          found.updated env fi replaceUserMetadata = .ok updated ∧
          updateEntries env fi replaceUserMetadata (entry :: versions) =
            (.ok (), (entry :: versions).set idx updated) := by
      rintro rest rfl skips
      rw [skips]
      rcases ih distinctRest.2 with same | ⟨idx, found, updated, isFound, isObject, named, made, done⟩
      · exact .inl (congrArg (entry :: ·) same)
      · refine .inr ⟨idx + 1, found, updated, isFound, isObject, named, made, ?_⟩
        rw [done]
        rfl
    cases isType : entry.header.versionType with
    | invalid | legacy => exact skipped _ rfl (by rw [updateEntries, isType])
    | delete =>
      by_cases sameId : entry.header.versionId = fi.versionId
      · left
        rw [updateEntries, isType]
        dsimp only
        rw [if_pos sameId]
      · apply skipped _ rfl
        rw [updateEntries, isType]
        dsimp only
        rw [if_neg sameId]
    | object =>
      by_cases same : entry.header.versionId.getD Uuid.nil = fi.versionId.getD Uuid.nil
      · have absent : ∀ other ∈ versions, other.header.denotes ≠ fi.versionId.getD Uuid.nil := by
          intro other member equal
          exact distinctRest.1 (mem_map.2 ⟨other, member, equal.trans same.symm⟩)
        cases made : entry.updated env fi replaceUserMetadata with
        | error error =>
          left
          rw [updateEntries, isType]
          dsimp only
          rw [if_pos same, made]
        | ok updated =>
          refine .inr ⟨0, entry, updated, rfl, isType, same, made, ?_⟩
          rw [updateEntries, isType]
          dsimp only
          rw [if_pos same, made, update_entries_absent absent]
          rfl
      · apply skipped _ rfl
        rw [updateEntries, isType]
        dsimp only
        rw [if_neg same]

theorem updated_entry_stored (formed : fm.WellFormed env) (fits : fi.Fits env)
    (timely : fi.modTime ≠ some .unixEpoch) (room : fm.RoomFor env fi)
    (isEntry : fm.versions[idx]? = some entry) (isObject : entry.header.versionType = .object)
    (made : entry.updated env fi replaceUserMetadata = .ok updated) :
    (fm.withEntry idx updated).WellFormed env := by
  obtain ⟨body, parsed, made⟩ := Outcome.bind_eq_ok.1 made
  obtain ⟨kept, isKept, made⟩ := Outcome.bind_eq_ok.1 made
  cases made
  have found : fm.getIdx env idx = .ok body := by
    unfold FileMeta.getIdx
    rw [isEntry]
    exact parsed
  have space := room entry (mem_of_getElem? isEntry) body parsed
  obtain ⟨there, isThere, storable, sameId, sameType⟩ := formed.read found
  rw [isEntry] at isThere
  cases isThere
  cases storable with
  | marker _ =>
    rw [isObject] at sameType
    cases sameType
  | @object object storable =>
    have applied := apply_update_storable fits.writable timely storable replaceUserMetadata
    have appliedId : (object.applyUpdate env fi replaceUserMetadata).versionId =
        object.versionId := by
      obtain ⟨metaSys, metaUser, same⟩ := @apply_update_eq env fi object replaceUserMetadata
      rw [same]
    have stored : kept.Storable
          ((ofObject object).mapEntries + fi.writtenEntries + 6) ∧
        kept.getVersionId env = (ofObject
          (object.applyUpdate env fi replaceUserMetadata)).getVersionId env := by
      unfold preserveIfBound at isKept
      split at isKept
      · exact preserve_storable (.object storable) (.object applied) isKept
      · cases isKept
        exact ⟨.object (applied.mono (Nat.le_add_right _ _)), rfl⟩
    apply formed.rewrite isEntry stored.1 (by omega)
    rw [stored.2, ← sameId]
    exact congrArg (Option.getD · Uuid.nil) appliedId

theorem update_object_version_well_formed (formed : fm.WellFormed env) (fits : fi.Fits env)
    (timely : fm.HoldsObject fi → fi.modTime ≠ some .unixEpoch) (room : fm.RoomFor env fi) :
    (fm.updateObjectVersion env fi).2.WellFormed env := by
  unfold FileMeta.updateObjectVersion FileMeta.updateObjectVersionWithOpts
  rcases update_entries_cases env fi false formed.distinct with
    same | ⟨idx, entry, updated, isEntry, isObject, named, made, done⟩
  · generalize updateEntries env fi false fm.versions = outcome at same
    obtain ⟨result, versions⟩ := outcome
    cases same
    cases result with
    | ok done => exact well_formed_sorted formed.toEntriesSound fm
    | error error => exact formed
  · have held : fm.HoldsObject fi := ⟨entry, mem_of_getElem? isEntry, isObject, named⟩
    rw [done]
    exact updated_entry_stored formed fits (timely held) room isEntry isObject made

end Update

section Delete

variable {env : Runtime} {fi : FileInfo} {fm : FileMeta} {version changed : FileMetaVersion}
  {object : MetaObject} {count idx : Nat}

theorem FileMeta.RoomFor.read (room : fm.RoomFor env fi) (found : fm.getIdx env idx = .ok version) :
    version.mapEntries + fi.writtenEntries + 32 < 2 ^ 32 := by
  obtain ⟨entry, isEntry, parsed⟩ := get_idx_ok found
  exact room entry (mem_of_getElem? isEntry) version parsed

theorem FileMeta.WellFormed.set_idx (formed : fm.WellFormed env)
    (found : fm.getIdx env idx = .ok version) (storable : changed.Storable count)
    (room : count < 2 ^ 32) (same : changed.getVersionId env = version.getVersionId env) :
    (fm.setIdx env idx changed).2.WellFormed env := by
  obtain ⟨entry, isEntry, _, sameId, _⟩ := formed.read found
  rw [set_idx_eq (get_idx_inside found)]
  apply formed.rewrite isEntry storable room
  rw [same]
  exact sameId

theorem delete_scan_update_marker {update : Bool} {versions : List FileMetaShallowVersion}
    {start : Nat} {found : Option Nat}
    (scanned : deleteScan fi update versions start found = .updateMarker idx) :
    ∃ offset entry, idx = start + offset ∧ versions[offset]? = some entry ∧
      entry.header.versionType = .delete := by
  induction versions generalizing start found with
  | nil => cases scanned
  | cons entry versions ih =>
    have later : ∀ {found : Option Nat},
        deleteScan fi update versions (start + 1) found = .updateMarker idx →
        ∃ offset found, idx = start + offset ∧ (entry :: versions)[offset]? = some found ∧
          found.header.versionType = .delete := by
      intro found scanned
      obtain ⟨offset, found, isIdx, isFound, isMarker⟩ := ih scanned
      exact ⟨offset + 1, found, by omega, isFound, isMarker⟩
    unfold deleteScan at scanned
    split at scanned
    · exact later scanned
    split at scanned
    · cases scanned
    cases isType : entry.header.versionType with
    | invalid | legacy =>
      rw [isType] at scanned
      cases scanned
    | delete =>
      rw [isType] at scanned
      cases update with
      | true =>
        cases scanned
        exact ⟨0, entry, rfl, rfl, isType⟩
      | false => cases scanned
    | object =>
      rw [isType] at scanned
      dsimp only at scanned
      split at scanned
      · cases scanned
      · exact later scanned

section

variable (formed : fm.WellFormed env) (fits : fi.Fits env)

include formed fits

theorem update_marker_well_formed (room : fm.RoomFor env fi)
    (isEntry : fm.versions[idx]? = some entry) (isMarker : entry.header.versionType = .delete) :
    (fm.updateMarker env fi idx).2.WellFormed env := by
  unfold FileMeta.updateMarker
  cases found : fm.getIdx env idx with
  | error error => exact formed
  | ok version =>
    have space := room.read found
    obtain ⟨there, isThere, storable, _, sameType⟩ := formed.read found
    rw [isEntry] at isThere
    cases isThere
    cases storable with
    | object _ =>
      rw [isMarker] at sameType
      cases sameType
    | @marker marker storable =>
      have applied := apply_replication_storable fits.writable storable
      have sameId : (marker.applyReplication env fi).versionId = marker.versionId := by
        unfold MetaDeleteMarker.applyReplication
        split
        all_goals rfl
      exact formed.set_idx found (.marker applied) (by omega) sameId

theorem update_object_well_formed
    (room : fm.RoomFor env fi) (idx : Nat) : (fm.updateObject env fi idx).2.WellFormed env := by
  unfold FileMeta.updateObject
  cases found : fm.getIdx env idx with
  | error error => exact formed
  | ok version =>
    have space := room.read found
    obtain ⟨_, _, storable, _, _⟩ := formed.read found
    cases storable with
    | marker storable => exact formed.set_idx found (.marker storable) (by omega) rfl
    | object storable =>
      have marked := mark_purge_storable fits.writable storable
      exact formed.set_idx found (.object marked) (by omega) rfl

theorem add_delete_entry_well_formed :
    (fm.addVersionFilemata env (fi.deleteEntry env)).2.WellFormed env := by
  have room := fits.room
  exact formed.add_filemata (delete_entry_storable fits.writable) (by omega)

theorem remove_marker_well_formed (idx : Nat) : (fm.removeMarker env fi idx).2.WellFormed env := by
  have removed := formed.remove idx
  unfold FileMeta.removeMarker FileMeta.addEntry
  dsimp only
  split
  · exact add_delete_entry_well_formed removed fits
  · exact removed

theorem change_object_well_formed
    (room : fm.RoomFor env fi) (found : fm.getIdx env idx = .ok version)
    (isObject : version.object = some object) :
    (fm.changeObject env fi idx version object).2.WellFormed env := by
  have space := room.read found
  obtain ⟨_, _, storable, _, _⟩ := formed.read found
  cases storable with
  | marker _ => cases isObject
  | object storable =>
    cases isObject
    unfold FileMeta.changeObject
    split
    · have restored := remove_restore_storable storable
      exact formed.set_idx found (.object restored) (by omega) rfl
    split
    · have transitioned := set_transition_storable fits.writable storable
      have enough : fi.writtenEntries ≥ 2048 := by
        unfold FileInfo.writtenEntries
        omega
      exact formed.set_idx found (.object transitioned) (by omega) rfl
    have removed := formed.remove idx
    dsimp only
    split
    · exact removed
    · exact removed
    · rename_i free made
      exact removed.add_filemata (free_version_storable storable.metaSys storable.modTime made)
        (by decide)

theorem delete_object_well_formed
    (room : fm.RoomFor env fi) (found : fm.getIdx env idx = .ok version)
    (isObject : version.object = some object) :
    (fm.deleteObject env fi idx version object).2.WellFormed env := by
  have changed := change_object_well_formed formed fits room found isObject
  unfold FileMeta.deleteObject
  split
  · rename_i error next isNext
    rw [isNext] at changed
    exact changed
  · rename_i result next isNext
    rw [isNext] at changed
    cases fi.deleted with
    | true => exact add_delete_entry_well_formed changed fits
    | false => exact changed

theorem finish_delete_well_formed (room : fm.RoomFor env fi) (last : Option Nat) :
    (fm.finishDelete env fi last).2.WellFormed env := by
  have missing : (if fi.deleted then fm.addEntry env (fi.deleteEntry env)
      else (.error .fileVersionNotFound, fm)).2.WellFormed env := by
    split
    · exact add_delete_entry_well_formed formed fits
    · exact formed
  unfold FileMeta.finishDelete
  dsimp only
  split
  · exact missing
  split
  · exact formed
  · rename_i version found
    split
    · exact missing
    · rename_i object isObject
      exact delete_object_well_formed formed fits room found isObject

theorem delete_version_well_formed
    (room : fm.RoomFor env fi) : (fm.deleteVersion env fi).2.WellFormed env := by
  unfold FileMeta.deleteVersion
  split
  · exact formed
  split
  · unfold FileMeta.deleteFreeVersion
    split
    · exact formed
    · exact formed.remove _
  split
  · exact formed
  · exact formed
  · rename_i idx scanned
    obtain ⟨offset, entry, isIdx, isEntry, isMarker⟩ := delete_scan_update_marker scanned
    rw [Nat.zero_add] at isIdx
    rw [← isIdx] at isEntry
    exact update_marker_well_formed formed fits room isEntry isMarker
  · exact remove_marker_well_formed formed fits _
  · exact update_object_well_formed formed fits room _
  · exact finish_delete_well_formed formed fits room _

end

end Delete

inductive VersionOperation
  | addVersion
  | updateObjectVersion
  | deleteVersion
  deriving DecidableEq

/-- A call with its request, at some time and with the hash maps in some order. -/
structure VersionCall where
  operation : VersionOperation
  fi : FileInfo
  now : Int
  walk : Walk

namespace VersionCall

def runtime (env : Runtime) (call : VersionCall) : Runtime :=
  { env with walk := call.walk, now := call.now }

/-- The result of the call and the value it leaves. -/
def perform (env : Runtime) (call : VersionCall) (fm : FileMeta) :
    Except Error (Option Uuid) × FileMeta :=
  match call.operation with
  | .addVersion =>
    let next := fm.addVersion (call.runtime env) call.fi
    (next.1.map fun _ => none, next.2)
  | .updateObjectVersion =>
    let next := fm.updateObjectVersion (call.runtime env) call.fi
    (next.1.map fun _ => none, next.2)
  | .deleteVersion => fm.deleteVersion (call.runtime env) call.fi

/-- The value after the call, whether it failed or not. -/
def apply (env : Runtime) (call : VersionCall) (fm : FileMeta) : FileMeta :=
  (call.perform env fm).2

/-- The request would store an object with its own mod time. -/
def DatesObject (call : VersionCall) (fm : FileMeta) : Prop :=
  match call.operation with
  | .addVersion => (FileMeta.storedRequest call.fi).isStorageDeleteMarker = false
  | .updateObjectVersion => fm.HoldsObject call.fi
  | .deleteVersion => False

/-- The codec can hold what the call writes, and no stored restore has ended since the
previous call. -/
structure Safe (env previous : Runtime) (fm : FileMeta) (call : VersionCall) : Prop where
  fits : call.fi.Fits (call.runtime env)
  timely : call.DatesObject fm → call.fi.modTime ≠ some .unixEpoch
  room : call.operation ≠ .addVersion → fm.RoomFor (call.runtime env) call.fi
  steady : ∀ entry ∈ fm.versions, ∀ body, entry.parseVersionMeta env = .ok body →
    ∀ object, body.object = some object →
      object.usesDataDir (call.runtime env) = object.usesDataDir previous

end VersionCall

/-- The value after the calls, from the empty one. -/
def runCalls (env : Runtime) (calls : List VersionCall) : FileMeta :=
  calls.foldl (fun fm call => call.apply env fm) .new

def lastRuntime (env : Runtime) (calls : List VersionCall) : Runtime :=
  (calls.getLast?.map (VersionCall.runtime env)).getD env

/-- The entries are in order, denote different versions, agree with the bodies they
decode to and are not too many. -/
structure FileMeta.Consistent (env : Runtime) (fm : FileMeta) : Prop where
  ordered : fm.versions.Pairwise fun earlier later =>
    later.header.sortsBefore earlier.header = false
  distinct : (fm.versions.map fun entry => entry.header.denotes).Nodup
  agrees : ∀ entry ∈ fm.versions, ∃ body, entry.parseVersionMeta env = .ok body ∧
    entry.header.Agrees (body.header env)
  bounded : fm.versions.length ≤ env.objectMaxVersions

section Header

variable {env other : Runtime}

theorem MetaObject.signature_steady (hash : other.hash = env.hash) (object : MetaObject) :
    object.getSignature other = object.getSignature env := by
  unfold MetaObject.getSignature
  rw [hash]
  rfl

theorem MetaDeleteMarker.signature_steady (hash : other.hash = env.hash)
    (marker : MetaDeleteMarker) : marker.getSignature other = marker.getSignature env := by
  have bare : ∀ walk : Walk,
      writeMapOf walk writeBin (KeyMap.empty : SysMetadata) = writeMapLen (asU32 0) := by
    intro walk
    have nothing : walk.enumerate ([] : List (String × Bytes)) = [] := (walk.perm []).eq_nil
    change writeMapLen (asU32 0) ++ (walk.enumerate ([] : List (String × Bytes))).flatMap _ = _
    rw [nothing, flatMap_nil, append_nil]
  unfold MetaDeleteMarker.getSignature MetaDeleteMarker.encodeTo MetaDeleteMarker.entries
  rw [hash, bare, bare]

theorem FileMetaVersion.Storable.header_steady {version : FileMetaVersion}
    (storable : version.Storable count) (hash : other.hash = env.hash)
    (steady : ∀ object, version.object = some object →
      object.usesDataDir other = object.usesDataDir env) :
    version.header other = version.header env := by
  cases storable with
  | @object object _ =>
    have signature : (ofObject object).getSignature other =
        (ofObject object).getSignature env := object.signature_steady hash
    have flags : (ofObject object).headerFlags other =
        (ofObject object).headerFlags env := by
      have sameUse := steady object rfl
      simp only [headerFlags, objectOfType,
        ofObject, if_true, Option.any_some, sameUse]
    unfold header
    rw [signature, flags]
    rfl
  | @marker marker _ =>
    have signature : (ofMarker marker).getSignature other =
        (ofMarker marker).getSignature env := marker.signature_steady hash
    have flags : (ofMarker marker).headerFlags other =
        (ofMarker marker).headerFlags env := by
      have bare : (ofMarker marker).objectOfType = none := rfl
      simp only [headerFlags, bare, Option.any_none]
    unfold header
    rw [signature, flags]
    rfl

theorem FileMeta.WellFormed.steady {fm : FileMeta} (formed : fm.WellFormed env)
    (hash : other.hash = env.hash) (limit : other.objectMaxVersions = env.objectMaxVersions)
    (steady : ∀ entry ∈ fm.versions, ∀ body, entry.parseVersionMeta env = .ok body →
      ∀ object, body.object = some object → object.usesDataDir other = object.usesDataDir env) :
    fm.WellFormed other where
  stored := by
    intro entry member
    obtain ⟨version, count, walk, room, storable, rfl⟩ := formed.stored entry member
    have unchanged : ∀ object, version.object = some object →
        object.usesDataDir other = object.usesDataDir env := by
      intro object isObject
      refine steady _ member version.normal (storable.parse room _ walk) object.normal ?_
      unfold normal
      rw [isObject]
      rfl
    exact ⟨version, count, walk, room, storable, by rw [storable.header_steady hash unchanged]⟩
  distinct := formed.distinct
  bounded := by
    rw [limit]
    exact formed.bounded
  ordered := formed.ordered

end Header

section Runs

variable {env previous : Runtime} {fm : FileMeta} {call : VersionCall}

theorem FileMeta.WellFormed.consistent (formed : fm.WellFormed env) : fm.Consistent env where
  ordered := formed.ordered
  distinct := formed.distinct
  agrees := by
    intro entry member
    obtain ⟨version, count, walk, room, storable, rfl⟩ := formed.stored entry member
    exact ⟨version.normal, storable.parse room _ walk, storable.header_agrees⟩
  bounded := formed.bounded

theorem new_well_formed (env : Runtime) : FileMeta.new.WellFormed env where
  stored := fun entry member => by cases member
  distinct := nodup_nil
  bounded := Nat.zero_le _
  ordered := List.Pairwise.nil

theorem apply_well_formed (formed : fm.WellFormed (call.runtime env))
    (fits : call.fi.Fits (call.runtime env))
    (timely : call.DatesObject fm → call.fi.modTime ≠ some .unixEpoch)
    (room : call.operation ≠ .addVersion → fm.RoomFor (call.runtime env) call.fi) :
    (call.apply env fm).WellFormed (call.runtime env) := by
  unfold VersionCall.DatesObject at timely
  unfold VersionCall.apply VersionCall.perform
  cases isOperation : call.operation with
  | addVersion =>
    rw [isOperation] at timely
    exact add_version_well_formed formed fits timely
  | updateObjectVersion =>
    rw [isOperation] at timely room
    exact update_object_version_well_formed formed fits timely (room (by decide))
  | deleteVersion =>
    rw [isOperation] at room
    exact delete_version_well_formed formed fits (room (by decide))

theorem last_runtime_shared (env : Runtime) (calls : List VersionCall) :
    (lastRuntime env calls).hash = env.hash ∧
      (lastRuntime env calls).objectMaxVersions = env.objectMaxVersions ∧
      ∀ entry : FileMetaShallowVersion,
        entry.parseVersionMeta (lastRuntime env calls) = entry.parseVersionMeta env := by
  unfold lastRuntime
  cases calls.getLast? with
  | none | some call => exact ⟨rfl, rfl, fun _ => rfl⟩

theorem run_calls_append (env : Runtime) (calls : List VersionCall) (call : VersionCall) :
    runCalls env (calls ++ [call]) = call.apply env (runCalls env calls) := by
  unfold runCalls
  rw [foldl_append]
  rfl

theorem last_runtime_append (env : Runtime) (calls : List VersionCall) (call : VersionCall) :
    lastRuntime env (calls ++ [call]) = call.runtime env := by
  unfold lastRuntime
  rw [getLast?_concat]
  rfl

theorem run_calls_well_formed (calls : List VersionCall)
    (safe : ∀ earlier call later, calls = earlier ++ call :: later →
      call.Safe env (lastRuntime env earlier) (runCalls env earlier)) :
    (runCalls env calls).WellFormed (lastRuntime env calls) := by
  induction calls using List.reverseRecOn with
  | nil => exact new_well_formed env
  | append_singleton calls call ih =>
    have before := ih fun earlier call later isCalls =>
      safe earlier call (later ++ [_]) (by rw [isCalls, append_assoc]; rfl)
    have isSafe := safe calls call [] rfl
    obtain ⟨hash, limit, parse⟩ := last_runtime_shared env calls
    have now : (runCalls env calls).WellFormed (call.runtime env) := by
      apply before.steady
      · exact hash.symm
      · exact limit.symm
      · intro entry member body parsed
        rw [parse] at parsed
        exact isSafe.steady entry member body parsed
    rw [run_calls_append, last_runtime_append]
    exact apply_well_formed now isSafe.fits isSafe.timely isSafe.room

/-- In every run of calls that the codec can hold, the version list is consistent in
every state that is reached. The runtime of a call, its clock above all, may be another
one than that of the call before. -/
theorem runs_stay_consistent (env : Runtime) (calls : List VersionCall)
    (safe : ∀ earlier call later, calls = earlier ++ call :: later →
      call.Safe env (lastRuntime env earlier) (runCalls env earlier)) :
    ∀ reached, reached <+: calls →
      (runCalls env reached).Consistent (lastRuntime env reached) := by
  rintro reached ⟨rest, isCalls⟩
  apply FileMeta.WellFormed.consistent
  apply run_calls_well_formed
  intro earlier call later isReached
  apply safe earlier call (later ++ rest)
  rw [← isCalls, isReached, append_assoc]
  rfl

end Runs

def timedInfo (time : OffsetDateTime) : FileInfo :=
  { FileInfo.default with
    versionId := some 5
    modTime := some time
    metadata := .ofEntries [("etag", "source-etag")] }

def timedCall (operation : VersionOperation) (time : OffsetDateTime) : VersionCall :=
  ⟨operation, timedInfo time, Runtime.sample.now, .sorted⟩

def firstTime : OffsetDateTime := ⟨1700000000000000000, OffsetDateTime.sample_in_range⟩

theorem first_info_fits : (timedInfo firstTime).Fits .sample where
  writable :=
    { metadata := by
        intro entry member
        obtain rfl : entry = ("etag", "source-etag") := mem_singleton.1 member
        refine ⟨by decide, by decide, ?_⟩
        intro suffix stripped
        have plain : stripInternalPrefix Runtime.sample.toPlatform "etag" = none := by decide
        rw [plain] at stripped
        cases stripped
      checksum := fun bytes given => by cases given
      transitionStatus := by decide
      transitionedObjname := by decide
      transitionTier := by decide
      transitionVersion := fun text given => by cases given
      parts := fun part member => by cases member
      partCount := by decide
      distribution := by decide
      modTime := by decide
      replication := fun state given => by cases given }
  room := by decide

def updateRun : List VersionCall :=
  [timedCall .addVersion firstTime, timedCall .updateObjectVersion firstTime]

theorem update_run_room :
    (runCalls .sample [timedCall .addVersion firstTime]).RoomFor .sample (timedInfo firstTime) := by
  have few : ((runCalls .sample [timedCall .addVersion firstTime]).versions.all fun entry =>
      (entry.parseVersionMeta .sample).toOption.all fun body => decide (body.mapEntries < 8)) =
        true := by decide +kernel
  intro entry member body parsed
  have bounded := all_eq_true.1 few entry member
  rw [parsed] at bounded
  have less : body.mapEntries < 8 := of_decide_eq_true bounded
  have written : (timedInfo firstTime).writtenEntries = 2051 := by decide
  omega

theorem update_run_consistent :
    (runCalls .sample updateRun).Consistent (lastRuntime .sample updateRun) := by
  refine runs_stay_consistent .sample updateRun ?_ updateRun prefix_rfl
  intro earlier call later isCalls
  match earlier with
  | [] =>
    cases isCalls
    exact ⟨first_info_fits, fun _ => by decide, fun other => absurd rfl other,
      fun entry member => by cases member⟩
  | [first] =>
    cases isCalls
    exact ⟨first_info_fits, fun _ => by decide, fun _ => update_run_room,
      fun _ _ _ _ _ _ => rfl⟩
  | first :: second :: third =>
    have short := congrArg List.length isCalls
    simp [updateRun] at short

/-- An object of the epoch: its header names the time, its bytes are not read back. -/
theorem epoch_object_is_not_read :
    ¬ ∀ (env : Runtime) (calls : List VersionCall),
      (runCalls env calls).Consistent (lastRuntime env calls) := by
  intro claim
  have consistent := claim .sample [timedCall .addVersion .unixEpoch]
  have unread : ((runCalls .sample [timedCall .addVersion .unixEpoch]).versions.any fun entry =>
      (entry.parseVersionMeta .sample).toOption.isNone) = true := by decide +kernel
  obtain ⟨entry, member, isNone⟩ := any_eq_true.1 unread
  obtain ⟨body, parsed, _⟩ := consistent.agrees entry member
  have read : entry.parseVersionMeta .sample = .ok body := parsed
  rw [read] at isNone
  cases isNone

end Rustfs.Filemeta
