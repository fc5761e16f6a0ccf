import Rustfs.Library.Outcome
import Rustfs.Filemeta.WrittenMaps

/-!
# Stored bodies

What a reader of a stored version gets back: the body up to the spelling of nil
ids and epoch times, and a header that differs from the writer's in nothing else.
-/

namespace Rustfs.Filemeta

open List Option Library Library.MessagePack Utils

@[simp] theorem normal_id_get_d (id : Option Uuid) :
    (normalId id).getD Uuid.nil = id.getD Uuid.nil := by
  cases id with
  | none => rfl
  | some given =>
    by_cases null : given.isNil = true
    · have same : given = Uuid.nil := by simpa [Uuid.isNil] using null
      simp [normalId, filter_some, same, Uuid.isNil]
    · simp [normalId, filter_some, null]

theorem write_uuid_normal (id : Option Uuid) : writeUuid (normalId id) = writeUuid id := by
  rw [writeUuid, normal_id_get_d, writeUuid]

theorem write_mod_time_normal (time : Option OffsetDateTime) :
    writeModTime (normalTime time) = writeModTime time := by
  have same : nanosAsI64 (normalTime time) = nanosAsI64 time := by
    cases time with
    | none => rfl
    | some given =>
      by_cases epoch : given = .unixEpoch
      · subst epoch
        rfl
      · simp [normalTime, filter_some, epoch]
  rw [writeModTime, same, writeModTime]

theorem MetaObject.normal_get_signature (env : Runtime) (object : MetaObject) :
    object.normal.getSignature env = object.getSignature env := by
  have same : object.normal.signatureBody.encodeTo env.walk =
      object.signatureBody.encodeTo env.walk := by
    simp only [MetaObject.encodeTo, MetaObject.entries, MetaObject.signatureBody,
      MetaObject.normal, write_uuid_normal, write_mod_time_normal]
    rfl
  rw [MetaObject.getSignature, same]
  rfl

theorem MetaDeleteMarker.normal_get_signature (env : Runtime) (marker : MetaDeleteMarker) :
    marker.normal.getSignature env = marker.getSignature env := by
  simp only [MetaDeleteMarker.getSignature, MetaDeleteMarker.encodeTo, MetaDeleteMarker.entries,
    MetaDeleteMarker.normal, write_uuid_normal, write_mod_time_normal]

namespace FileMetaVersion

theorem normal_free_version (version : FileMetaVersion) :
    version.normal.freeVersion = version.freeVersion := by
  simp only [freeVersion, normal, Option.any_map]
  rfl

theorem normal_get_version_id (env : Runtime) (version : FileMetaVersion) :
    (version.normal.getVersionId env).getD Uuid.nil =
      (version.getVersionId env).getD Uuid.nil := by
  simp only [getVersionId, normal]
  cases version.versionType with
  | invalid => rfl
  | object => cases version.object <;> simp [MetaObject.normal]
  | delete => cases version.deleteMarker <;> simp [MetaDeleteMarker.normal]
  | legacy => rfl

theorem normal_get_signature (env : Runtime) (version : FileMetaVersion) :
    version.normal.getSignature env = version.getSignature env := by
  simp only [getSignature, normal]
  cases version.versionType with
  | invalid => rfl
  | object =>
    cases version.object with
    | none => rfl
    | some object => simp [MetaObject.normal_get_signature]
  | delete =>
    cases version.deleteMarker with
    | none => rfl
    | some marker => simp [MetaDeleteMarker.normal_get_signature]
  | legacy => rfl

theorem normal_object_of_type (version : FileMetaVersion) :
    version.normal.objectOfType = version.objectOfType.map MetaObject.normal := by
  by_cases isObject : version.versionType = .object <;> simp [objectOfType, normal, isObject]

theorem normal_header_flags (env : Runtime) (version : FileMetaVersion) :
    version.normal.headerFlags env = version.headerFlags env := by
  simp only [headerFlags, normal_free_version, normal_object_of_type, Option.any_map]
  rfl

theorem normal_header (env : Runtime) (version : FileMetaVersion) :
    version.normal.header env =
      { version.header env with
        versionId := version.normal.getVersionId env
        modTime := version.normal.getModTime } := by
  simp only [header, normal_get_signature, normal_header_flags, normal_object_of_type,
    Option.map_map]
  rfl

/-- A body within the bounds of the codec that stays valid when it is read is read
by the current decoder. -/
theorem try_from_marshal {env : Runtime} {version : FileMetaVersion} {walk : Walk}
    (fits : version.Fits) (valid : version.normal.valid = true) :
    tryFrom env (version.marshalMsg walk) = .ok version.normal := by
  have read : FileMetaVersion.decodeFrom.run (version.encodeTo walk) =
      .ok (version.normal, []) := by
    have whole := FileMetaVersion.reads fits (version.encodes walk) []
    rwa [append_nil] at whole
  have current : { version.normal with usesLegacyChecksum := false } = version.normal := by
    simp only [normal, fits.usesLegacyChecksum]
  rw [tryFrom, unmarshalMsg, marshalMsg, read]
  simp only [Except.map, valid, if_true, current]

end FileMetaVersion

/-- The id a header denotes: an absent id and the nil id are the null version. -/
def FileMetaVersionHeader.denotes (header : FileMetaVersionHeader) : Uuid :=
  header.versionId.getD Uuid.nil

/-- Equal headers, up to the spelling of the null version. -/
def FileMetaVersionHeader.Agrees (left right : FileMetaVersionHeader) : Prop :=
  left.denotes = right.denotes ∧
    { left with versionId := none } = { right with versionId := none }

/-- The lists and the mod time are within the bounds of the codec, both maps have at most
so many entries, and the object is valid with a mod time other than the epoch. -/
structure MetaObject.Storable (count : Nat) (object : MetaObject) : Prop extends
    object.MapsWithin count where
  erasureDist : object.erasureDist.length < 2 ^ 32
  partNumbers : object.partNumbers.length < 2 ^ 32
  partEtags : ListFits TextFits object.partEtags
  partSizes : object.partSizes.length < 2 ^ 32
  partActualSizes : object.partActualSizes.length < 2 ^ 32
  partIndices : ListFits BinFits object.partIndices
  erasureAlgorithm : object.erasureAlgorithm.valid = true
  bitrotChecksumAlgo : object.bitrotChecksumAlgo.valid = true
  modTime : timeFits object.modTime
  dated : object.modTime.isSome = true
  timely : object.modTime ≠ some .unixEpoch

structure MetaDeleteMarker.Storable (count : Nat) (marker : MetaDeleteMarker) : Prop where
  metaSys : Sized count marker.metaSys
  modTime : timeFits marker.modTime
  dated : OffsetDateTime.unixEpoch < marker.modTime.getD OffsetDateTime.unixEpoch

namespace FileMetaVersion

def ofObject (object : MetaObject) : FileMetaVersion :=
  { FileMetaVersion.default with versionType := .object, object := some object }

def ofMarker (marker : MetaDeleteMarker) : FileMetaVersion :=
  { FileMetaVersion.default with versionType := .delete, deleteMarker := some marker }

inductive Storable (count : Nat) : FileMetaVersion → Prop
  | object {object : MetaObject} (storable : object.Storable count) : Storable count (ofObject object)
  | marker {marker : MetaDeleteMarker} (storable : marker.Storable count) :
      Storable count (ofMarker marker)

def mapEntries (version : FileMetaVersion) : Nat :=
  (version.object.map fun object =>
    object.metaSys.entries.length + object.metaUser.entries.length).getD 0 +
  (version.deleteMarker.map fun marker => marker.metaSys.entries.length).getD 0

end FileMetaVersion

variable {more : Nat}

section Bodies

variable {env : Runtime} {count : Nat} {object : MetaObject} {marker : MetaDeleteMarker}
  {version : FileMetaVersion}

theorem MetaObject.Storable.mono (storable : object.Storable count)
    (le : count ≤ more) : object.Storable more :=
  { storable with
    metaSys := storable.metaSys.mono le
    metaUser := storable.metaUser.mono le }

theorem FileMetaVersion.Storable.mono (storable : version.Storable count)
    (le : count ≤ more) : version.Storable more := by
  cases storable with
  | object storable => exact .object (storable.mono le)
  | marker storable => exact .marker { storable with metaSys := storable.metaSys.mono le }

theorem MetaObject.Storable.fits (storable : object.Storable count) (room : count < 2 ^ 32) :
    object.Fits where
  erasureDist := storable.erasureDist
  partNumbers := storable.partNumbers
  partEtags := storable.partEtags
  partSizes := storable.partSizes
  partActualSizes := storable.partActualSizes
  partIndices := storable.partIndices
  modTime := storable.modTime
  metaSys := ⟨Nat.lt_of_le_of_lt storable.metaSys.few room, storable.metaSys.each⟩
  metaUser := ⟨Nat.lt_of_le_of_lt storable.metaUser.few room, storable.metaUser.each⟩

theorem normal_time_timely {time : Option OffsetDateTime} (timely : time ≠ some .unixEpoch) :
    normalTime time = time := by
  cases time with
  | none => rfl
  | some instant =>
    have other : instant ≠ .unixEpoch := fun same => timely (congrArg some same)
    simp [normalTime, filter_some, other]

theorem MetaObject.Storable.normal (storable : object.Storable count) :
    object.normal.Storable count := by
  have sameTime : object.normal.modTime = object.modTime := normal_time_timely storable.timely
  exact
    { storable with
      modTime := by rw [sameTime]; exact storable.modTime
      dated := by rw [sameTime]; exact storable.dated
      timely := by rw [sameTime]; exact storable.timely }

theorem MetaDeleteMarker.Storable.timely (storable : marker.Storable count) :
    marker.modTime ≠ some .unixEpoch := by
  intro epoch
  have dated := storable.dated
  rw [epoch, getD_some] at dated
  exact Int.lt_irrefl _ dated

theorem MetaDeleteMarker.Storable.normal (storable : marker.Storable count) :
    marker.normal.Storable count := by
  have sameTime : marker.normal.modTime = marker.modTime := normal_time_timely storable.timely
  exact
    { metaSys := storable.metaSys
      modTime := by rw [sameTime]; exact storable.modTime
      dated := by rw [sameTime]; exact storable.dated }

namespace FileMetaVersion

theorem Storable.normal (storable : version.Storable count) : version.normal.Storable count := by
  cases storable with
  | object storable => exact .object storable.normal
  | marker storable => exact .marker storable.normal

theorem Storable.fits (storable : version.Storable count) (room : count < 2 ^ 32) : version.Fits := by
  have unwritten : FileMetaVersion.default.writeVersion.toNat < 2 ^ 63 := by decide
  cases storable with
  | object storable =>
    refine ⟨?_, ?_, ?_, unwritten, rfl⟩
    · exact fun legacy present => by cases present
    · intro object present
      cases present
      exact storable.fits room
    · exact fun marker present => by cases present
  | marker storable =>
    refine ⟨?_, ?_, ?_, unwritten, rfl⟩
    · exact fun legacy present => by cases present
    · exact fun object present => by cases present
    · intro marker present
      cases present
      exact ⟨storable.modTime, Nat.lt_of_le_of_lt storable.metaSys.few room, storable.metaSys.each⟩

theorem Storable.valid (storable : version.Storable count) : version.valid = true := by
  cases storable with
  | object storable =>
    simp [FileMetaVersion.valid, ofObject, storable.erasureAlgorithm, storable.bitrotChecksumAlgo,
      storable.dated]
  | marker storable => simpa [FileMetaVersion.valid, ofMarker] using storable.dated

theorem Storable.mod_time (storable : version.Storable count) :
    version.normal.getModTime = version.getModTime := by
  cases storable with
  | object storable | marker storable => exact normal_time_timely storable.timely

theorem Storable.parse (storable : version.Storable count) (room : count < 2 ^ 32)
    (header : FileMetaVersionHeader) (walk : Walk) :
    FileMetaShallowVersion.parseVersionMeta env ⟨header, version.marshalMsg walk⟩ =
      .ok version.normal :=
  try_from_marshal (storable.fits room) storable.normal.valid

theorem Storable.header_agrees (storable : version.Storable count) :
    (version.header env).Agrees (version.normal.header env) := by
  refine ⟨(normal_get_version_id env version).symm, ?_⟩
  rw [normal_header, storable.mod_time]
  rfl

theorem Storable.exact (storable : version.Storable count) : version.Storable version.mapEntries := by
  cases storable with
  | object storable =>
    refine .object { storable with metaSys := ⟨?_, storable.metaSys.each⟩
                                   metaUser := ⟨?_, storable.metaUser.each⟩ }
    all_goals
      simp only [mapEntries, ofObject, map_some, getD_some]
      omega
  | marker storable =>
    refine .marker { storable with metaSys := ⟨?_, storable.metaSys.each⟩ }
    simp [mapEntries, ofMarker, FileMetaVersion.default]

end FileMetaVersion

end Bodies

section Written

variable {env : Runtime} {fi : FileInfo} {count : Nat} {object changed : MetaObject}
  {marker : MetaDeleteMarker} {version stored existing : FileMetaVersion}

theorem MetaObject.Storable.change (storable : object.Storable count)
    (same : changed = { object with
      metaSys := changed.metaSys, metaUser := changed.metaUser, modTime := changed.modTime })
    (within : changed.MapsWithin more) (modTime : timeFits changed.modTime)
    (dated : changed.modTime.isSome = true) (timely : changed.modTime ≠ some .unixEpoch) :
    changed.Storable more where
  toMapsWithin := within
  erasureDist := by rw [same]; exact storable.erasureDist
  partNumbers := by rw [same]; exact storable.partNumbers
  partEtags := by rw [same]; exact storable.partEtags
  partSizes := by rw [same]; exact storable.partSizes
  partActualSizes := by rw [same]; exact storable.partActualSizes
  partIndices := by rw [same]; exact storable.partIndices
  erasureAlgorithm := by rw [same]; exact storable.erasureAlgorithm
  bitrotChecksumAlgo := by rw [same]; exact storable.bitrotChecksumAlgo
  modTime := modTime
  dated := dated
  timely := timely

theorem MetaObject.Storable.change_maps (storable : object.Storable count)
    (same : changed = { object with metaSys := changed.metaSys, metaUser := changed.metaUser })
    (within : changed.MapsWithin more) : changed.Storable more := by
  have sameTime : changed.modTime = object.modTime := by rw [same]
  apply storable.change _ within
  · rw [sameTime]; exact storable.modTime
  · rw [sameTime]; exact storable.dated
  · rw [sameTime]; exact storable.timely
  · rw [sameTime]; exact same

theorem store_entries_eq (os : Platform) (entries : List (String × String)) (object : MetaObject) :
    entries.foldl (MetaObject.storeMetadata os) object = { object with
      metaSys := (entries.foldl (MetaObject.storeMetadata os) object).metaSys
      metaUser := (entries.foldl (MetaObject.storeMetadata os) object).metaUser } := by
  induction entries generalizing object with
  | nil => rfl
  | cons entry entries ih =>
    have step : object.storeMetadata os entry = { object with
        metaSys := (object.storeMetadata os entry).metaSys
        metaUser := (object.storeMetadata os entry).metaUser } := by
      unfold MetaObject.storeMetadata
      split
      · split
        all_goals rfl
      · rfl
    rw [foldl_cons, ih]
    generalize entries.foldl (MetaObject.storeMetadata os) (object.storeMetadata os entry) = last
    rw [step]

theorem remove_restore_storable (storable : object.Storable count) :
    object.removeRestoreHdrs.Storable count :=
  storable.change_maps rfl (remove_restore_within storable.toMapsWithin)

theorem set_transition_storable (writable : fi.Writable env) (storable : object.Storable count) :
    (object.setTransition env fi).resetInlineData.Storable (count + 12) :=
  storable.change_maps rfl
    (reset_inline_within (set_transition_within writable storable.toMapsWithin))

theorem mark_purge_storable (writable : fi.Writable env) (storable : object.Storable count) :
    (object.markPurge env fi).Storable (count + fi.writtenEntries) :=
  storable.change_maps rfl (mark_purge_within writable storable.toMapsWithin)

theorem apply_update_eq (fi : FileInfo) (object : MetaObject) (replaceUserMetadata : Bool) :
    ∃ metaSys metaUser, object.applyUpdate env fi replaceUserMetadata =
      { object with
        metaSys := metaSys, metaUser := metaUser, modTime := fi.modTime.or object.modTime } := by
  unfold MetaObject.applyUpdate MetaObject.storeAll
  dsimp only
  rw [store_entries_eq]
  cases replaceUserMetadata with
  | true | false => exact ⟨_, _, rfl⟩

theorem apply_update_storable (writable : fi.Writable env) (timely : fi.modTime ≠ some .unixEpoch)
    (storable : object.Storable count) (replaceUserMetadata : Bool) :
    (object.applyUpdate env fi replaceUserMetadata).Storable (count + fi.writtenEntries) := by
  have within : (object.applyUpdate env fi replaceUserMetadata).MapsWithin
      (count + fi.writtenEntries) := by
    apply (apply_update_within writable storable.toMapsWithin replaceUserMetadata).mono
    unfold FileInfo.writtenEntries
    omega
  have modTime := writable.modTime
  obtain ⟨metaSys, metaUser, same⟩ := @apply_update_eq env fi object replaceUserMetadata
  rw [same] at within ⊢
  cases given : fi.modTime with
  | none =>
    rw [given] at within
    exact storable.change rfl within storable.modTime storable.dated storable.timely
  | some time =>
    rw [given] at within modTime timely
    exact storable.change rfl within modTime rfl timely

theorem from_file_info_storable (writable : fi.Writable env)
    (timely : fi.isStorageDeleteMarker = false → fi.modTime ≠ some .unixEpoch)
    (valid : (FileMetaVersion.fromFileInfo env fi).valid = true) :
    (FileMetaVersion.fromFileInfo env fi).Storable fi.writtenEntries := by
  unfold FileMetaVersion.fromFileInfo at valid ⊢
  split at valid
  · rename_i isMarker
    rw [if_pos isMarker]
    refine .marker ⟨marker_from_file_info_sized writable, writable.modTime, ?_⟩
    simpa [FileMetaVersion.valid] using valid
  · rename_i notMarker
    rw [if_neg notMarker]
    have dated : fi.modTime.isSome = true := by
      simp only [FileMetaVersion.valid, any_some, Bool.and_eq_true] at valid
      exact valid.2
    have within : (MetaObject.fromFileInfo env fi).MapsWithin fi.writtenEntries := by
      apply (from_file_info_within writable).mono
      unfold FileInfo.writtenEntries
      omega
    have etags : ListFits TextFits (fi.parts.map ObjectPartInfo.etag) := by
      refine ⟨by rw [length_map]; exact writable.partCount, ?_⟩
      intro etag member
      obtain ⟨part, isPart, rfl⟩ := mem_map.1 member
      exact (writable.parts part isPart).1
    have indices : ListFits BinFits (fi.parts.map fun part => part.index.getD []) := by
      refine ⟨by rw [length_map]; exact writable.partCount, ?_⟩
      intro index member
      obtain ⟨part, isPart, rfl⟩ := mem_map.1 member
      exact (writable.parts part isPart).2
    have lengths : ∀ {α : Type} (f : ObjectPartInfo → α), (fi.parts.map f).length < 2 ^ 32 := by
      intro α f
      rw [length_map]
      exact writable.partCount
    exact .object
      { toMapsWithin := within
        erasureDist := by
          change (fi.erasure.distribution.map _).length < _
          rw [length_map]
          exact writable.distribution
        partNumbers := lengths _
        partEtags := etags
        partSizes := lengths _
        partActualSizes := lengths _
        partIndices := indices
        erasureAlgorithm := rfl
        bitrotChecksumAlgo := rfl
        modTime := writable.modTime
        dated := dated
        timely := timely (Bool.eq_false_iff.2 notMarker) }

theorem delete_entry_storable (writable : fi.Writable env)
    (valid : (fi.deleteEntry env).valid = true) :
    (fi.deleteEntry env).Storable fi.writtenEntries := by
  unfold FileInfo.deleteEntry at valid ⊢
  split at valid
  · rename_i deleted
    rw [if_pos deleted]
    refine .marker ⟨delete_marker_metadata_sized writable, writable.modTime, ?_⟩
    simpa [FileMetaVersion.valid] using valid
  · cases valid

theorem free_version_storable (sized : Sized count object.metaSys) (modTime : timeFits object.modTime)
    (made : object.initFreeVersion env fi = .ok (some version)) (valid : version.valid = true) :
    version.Storable 12 := by
  obtain ⟨id, metaSys, isSized, rfl⟩ := init_free_version_eq sized made
  refine .marker ⟨isSized, modTime, ?_⟩
  simpa [FileMetaVersion.valid] using valid

theorem apply_replication_storable (writable : fi.Writable env) (storable : marker.Storable count) :
    (marker.applyReplication env fi).Storable (count + fi.writtenEntries) := by
  have same : (marker.applyReplication env fi).modTime = marker.modTime := by
    unfold MetaDeleteMarker.applyReplication
    split
    all_goals rfl
  refine ⟨apply_replication_sized writable storable.metaSys, ?_, ?_⟩
  · rw [same]; exact storable.modTime
  · rw [same]; exact storable.dated

theorem preserve_cases
    (preserved : preserveReconciledTransition env existing version = .ok stored) :
    stored = version ∨ ∃ previous next, existing.object = some previous ∧
      version.object = some next ∧ stored = { version with
        object := some { next with metaSys := copyReconciled env previous.metaSys next.metaSys } } := by
  unfold preserveReconciledTransition at preserved
  split at preserved
  · rename_i previous next isPrevious isNext
    split at preserved
    · cases preserved
      exact .inl rfl
    · obtain ⟨previousInfo, _, preserved⟩ := Outcome.bind_eq_ok.1 preserved
      split at preserved
      · cases preserved
        exact .inl rfl
      · obtain ⟨nextInfo, _, preserved⟩ := Outcome.bind_eq_ok.1 preserved
        obtain ⟨_, _, preserved⟩ := Outcome.bind_eq_ok.1 preserved
        cases preserved
        exact .inr ⟨previous, next, isPrevious, isNext, rfl⟩
  · cases preserved
    exact .inl rfl

theorem preserve_storable {other : Nat}
    (existingStorable : existing.Storable other) (storable : version.Storable count)
    (preserved : preserveReconciledTransition env existing version = .ok stored) :
    stored.Storable (count + 6) ∧ stored.getVersionId env = version.getVersionId env := by
  rcases preserve_cases preserved with rfl | ⟨previous, next, isPrevious, isNext, rfl⟩
  · exact ⟨storable.mono (Nat.le_add_right _ _), rfl⟩
  · cases storable with
    | marker storable => cases isNext
    | object storable =>
      cases isNext
      cases existingStorable with
      | marker _ => cases isPrevious
      | object previousStorable =>
        cases isPrevious
        refine ⟨.object (storable.change_maps rfl ⟨?_, ?_⟩), rfl⟩
        · exact copy_reconciled_sized previousStorable.metaSys storable.metaSys
        · exact storable.metaUser.mono (Nat.le_add_right _ _)

end Written

end Rustfs.Filemeta
