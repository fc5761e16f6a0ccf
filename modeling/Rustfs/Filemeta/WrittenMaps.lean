import Rustfs.Filemeta.VersionStore

/-!
# Round trip of produced bodies

A body that was decoded, or built from file information whose strings, binaries
and mod time the codec can hold, is read back from every encoding of it. A list or
map of `2 ^ 32` elements is not: its length is written as a `u32`.
-/

namespace Rustfs.Filemeta

open List Option Library Library.MessagePack Utils KeyMap.Within MetaObject
open Library.ByteReader (Reads Yields)

/-- Every string and binary is at most an element long, and the mod time is a
count of `i64` nanoseconds. -/
structure MetaObject.Bounded (object : MetaObject) : Prop where
  partEtags : ∀ etag ∈ object.partEtags, TextFits etag
  partIndices : ∀ index ∈ object.partIndices, BinFits index
  modTime : timeFits object.modTime
  metaSys : ∀ entry ∈ object.metaSys.entries, TextFits entry.1 ∧ BinFits entry.2
  metaUser : ∀ entry ∈ object.metaUser.entries, TextFits entry.1 ∧ TextFits entry.2

/-- Every list and map has a length that a `u32` holds. -/
structure MetaObject.Counted (object : MetaObject) : Prop where
  erasureDist : object.erasureDist.length < 2 ^ 32
  partNumbers : object.partNumbers.length < 2 ^ 32
  partEtags : object.partEtags.length < 2 ^ 32
  partSizes : object.partSizes.length < 2 ^ 32
  partActualSizes : object.partActualSizes.length < 2 ^ 32
  partIndices : object.partIndices.length < 2 ^ 32
  metaSys : object.metaSys.entries.length < 2 ^ 32
  metaUser : object.metaUser.entries.length < 2 ^ 32

variable {object : MetaObject} {env : Runtime} {os : Platform} {bytes : Bytes}

theorem MetaObject.Bounded.fits (bounded : object.Bounded)
    (counted : object.Counted) : object.Fits where
  erasureDist := counted.erasureDist
  partNumbers := counted.partNumbers
  partEtags := ⟨counted.partEtags, bounded.partEtags⟩
  partSizes := counted.partSizes
  partActualSizes := counted.partActualSizes
  partIndices := ⟨counted.partIndices, bounded.partIndices⟩
  modTime := bounded.modTime
  metaSys := ⟨counted.metaSys, bounded.metaSys⟩
  metaUser := ⟨counted.metaUser, bounded.metaUser⟩

structure MetaDeleteMarker.Bounded (marker : MetaDeleteMarker) : Prop where
  modTime : timeFits marker.modTime
  metaSys : ∀ entry ∈ marker.metaSys.entries, TextFits entry.1 ∧ BinFits entry.2

structure FileMetaVersion.Bounded (version : FileMetaVersion) : Prop where
  object : ∀ object, version.object = some object → object.Bounded
  deleteMarker : ∀ marker, version.deleteMarker = some marker → marker.Bounded

structure FileMetaVersion.Counted (version : FileMetaVersion) : Prop where
  object : ∀ object, version.object = some object → object.Counted
  deleteMarker : ∀ marker, version.deleteMarker = some marker →
    marker.metaSys.entries.length < 2 ^ 32

theorem from_file_info_plain (env : Runtime) (fi : FileInfo) :
    (FileMetaVersion.fromFileInfo env fi).legacyObject = none ∧
      (FileMetaVersion.fromFileInfo env fi).writeVersion = 0 ∧
        (FileMetaVersion.fromFileInfo env fi).usesLegacyChecksum = false := by
  unfold FileMetaVersion.fromFileInfo
  split <;> exact ⟨rfl, rfl, rfl⟩

theorem from_file_info_fits {fi : FileInfo}
    (bounded : (FileMetaVersion.fromFileInfo env fi).Bounded)
    (counted : (FileMetaVersion.fromFileInfo env fi).Counted) :
    (FileMetaVersion.fromFileInfo env fi).Fits := by
  obtain ⟨noLegacy, zero, current⟩ := from_file_info_plain env fi
  exact
    { legacyObject := by
        intro legacy present
        rw [noLegacy] at present
        cases present
      object := fun object present =>
        (bounded.object object present).fits (counted.object object present)
      deleteMarker := fun marker present =>
        ⟨(bounded.deleteMarker marker present).modTime,
          counted.deleteMarker marker present, (bounded.deleteMarker marker present).metaSys⟩
      writeVersion := by
        rw [zero]
        decide
      usesLegacyChecksum := current }

/-- Some input starts with bytes that are read as the body. -/
def FileMetaVersion.Decoded (version : FileMetaVersion) : Prop :=
  ∃ input rest, FileMetaVersion.decodeFrom.run input = .ok (version, rest)

/-- The bodies a reader or a writer of versions gets to hold. -/
inductive FileMetaVersion.Produced (env : Runtime) : FileMetaVersion → Prop
  | decoded {version : FileMetaVersion} (read : version.Decoded) : Produced env version
  | built (fi : FileInfo) (bounded : (FileMetaVersion.fromFileInfo env fi).Bounded) :
      Produced env (FileMetaVersion.fromFileInfo env fi)

theorem FileMetaVersion.Decoded.fits {version : FileMetaVersion} (decoded : version.Decoded) :
    version.Fits := by
  obtain ⟨input, rest, read⟩ := decoded
  exact (FileMetaVersion.yields _ _ _ read).fits

/-- A decoded body keeps every bound of the codec, a built one when its lists and
maps are short enough. -/
theorem FileMetaVersion.Produced.fits {version : FileMetaVersion} (produced : version.Produced env)
    (counted : version.Decoded ∨ version.Counted) : version.Fits := by
  rcases counted with decoded | counted
  · exact decoded.fits
  · cases produced with
    | decoded read => exact read.fits
    | built fi bounded => exact from_file_info_fits bounded counted

/-- Every encoding of a produced body, with entries under unknown keys anywhere in
its maps, is read back to its end and gives the body up to nil ids and epoch
times; `encode_to` writes such an encoding. The lengths are only asked of a body
that no input is read as. -/
theorem version_body_round_trip (env : Runtime) {version : FileMetaVersion}
    (produced : version.Produced env) (counted : version.Decoded ∨ version.Counted) :
    version.Encodes env.walk (version.encodeTo env.walk) ∧
      ∀ bytes, version.Encodes env.walk bytes → ∀ rest,
        FileMetaVersion.decodeFrom.run (bytes ++ rest) = .ok (version.normal, rest) := by
  constructor
  · exact version.encodes env.walk
  · intro bytes encoded
    exact FileMetaVersion.reads (produced.fits counted) encoded

def sampleInfo : FileInfo :=
  { FileInfo.default with
    versionId := some 1
    dataDir := some 2
    modTime := some ⟨1700000000000000000, OffsetDateTime.sample_in_range⟩
    size := 7
    metadata := .ofEntries [("etag", "source-etag"), ("x-rustfs-internal-inline-data", "true")]
    parts := [{ ObjectPartInfo.default with number := 1, size := 7, actualSize := 7 }] }

theorem version_body_round_trip_sample :
    FileMetaVersion.decodeFrom.run
        ((FileMetaVersion.fromFileInfo .sample sampleInfo).encodeTo .sorted ++ [1, 2]) =
      .ok ((FileMetaVersion.fromFileInfo .sample sampleInfo).normal, [1, 2]) := by
  have bounded : (FileMetaVersion.fromFileInfo .sample sampleInfo).Bounded := by
    constructor
    · rintro _ ⟨⟩
      exact ⟨by decide, by decide, by decide, by decide, by decide⟩
    · rintro _ ⟨⟩
  have counted : (FileMetaVersion.fromFileInfo .sample sampleInfo).Counted := by
    constructor
    · rintro _ ⟨⟩
      exact ⟨by decide, by decide, by decide, by decide, by decide, by decide, by decide,
        by decide⟩
    · rintro _ ⟨⟩
  have trip := version_body_round_trip .sample (.built sampleInfo bounded) (.inr counted)
  exact trip.2 _ trip.1 [1, 2]

def partsInfo (count : Nat) : FileInfo :=
  { FileInfo.default with parts := List.replicate count ObjectPartInfo.default }

theorem parts_info_bounded (env : Runtime) (count : Nat) :
    (FileMetaVersion.fromFileInfo env (partsInfo count)).Bounded := by
  have empty : env.walk.enumerate (partsInfo count).metadata.entries = [] :=
    eq_nil_of_length_eq_zero (env.walk.length_enumerate _)
  have split : default.storeAll env (partsInfo count).metadata = default := by
    rw [storeAll, empty, foldl_nil]
  constructor
  · rintro object ⟨⟩
    exact
      { partEtags := by
          intro etag member
          obtain ⟨part, listed, rfl⟩ := mem_map.1 member
          rw [eq_of_mem_replicate listed]
          decide
        partIndices := by
          intro index member
          obtain ⟨part, listed, rfl⟩ := mem_map.1 member
          rw [eq_of_mem_replicate listed]
          decide
        modTime := by
          rintro _ ⟨⟩
        metaSys := by
          simp only [fromFileInfo, split]
          rintro entry ⟨⟩
        metaUser := by
          simp only [fromFileInfo, split]
          rintro entry ⟨⟩ }
  · rintro marker ⟨⟩

theorem parts_info_not_read (env : Runtime) {count : Nat} (many : 2 ^ 32 ≤ count) (input rest : Bytes) :
    FileMetaVersion.decodeFrom.run input ≠
      .ok ((FileMetaVersion.fromFileInfo env (partsInfo count)).normal, rest) := by
  intro read
  have canonical := FileMetaVersion.yields _ _ _ read
  have short := (canonical.object _ rfl).partNumbers
  have length : (fromFileInfo env (partsInfo count)).normal.partNumbers.length = count := by
    simp [normal, fromFileInfo, partsInfo]
  omega

/-- A file information with `2 ^ 32` parts builds a body whose part lists are
declared empty, so that it is not read back. -/
theorem version_body_round_trip_truncates :
    ¬ ∃ env : Runtime, ∀ version : FileMetaVersion, version.Produced env →
      FileMetaVersion.decodeFrom.run (version.encodeTo env.walk) = .ok (version.normal, []) := by
  intro ⟨env, roundTrip⟩
  exact parts_info_not_read env (le_refl (2 ^ 32)) _ _
    (roundTrip _ (.built (partsInfo (2 ^ 32)) (parts_info_bounded env (2 ^ 32))))

abbrev Sized (count : Nat) (metaSys : SysMetadata) : Prop :=
  KeyMap.Within TextFits BinFits count metaSys

abbrev SizedText (count : Nat) (metaUser : Metadata) : Prop :=
  KeyMap.Within TextFits TextFits count metaUser

def KeyFits (suffix : String) : Prop := TextFits (rustfsKey suffix) ∧ TextFits (minioKey suffix)

instance (suffix : String) : Decidable (KeyFits suffix) :=
  inferInstanceAs (Decidable (_ ∧ _))

section Inserts

variable {count : Nat} {metaSys : SysMetadata} {suffix text : String} {value : Bytes}

theorem sized_insert (sized : Sized count metaSys) (key : KeyFits suffix) (fits : BinFits value) :
    Sized (count + 2) (insertBytes metaSys suffix value) :=
  (insert sized key.1 fits).insert key.2 fits

theorem sized_remove (sized : Sized count metaSys) (suffix : String) :
    Sized count (removeBytes metaSys suffix) :=
  (remove sized _).remove _

theorem sized_insert_optional {value : Option Bytes} (sized : Sized count metaSys)
    (key : KeyFits suffix) (fits : ∀ bytes, value = some bytes → BinFits bytes) :
    Sized (count + 2) (insertOptional metaSys suffix value) := by
  cases value with
  | none => exact sized.mono (Nat.le_add_right _ _)
  | some bytes => exact sized_insert sized key (fits bytes rfl)

theorem sized_insert_text (sized : Sized count metaSys) (key : KeyFits suffix)
    (fits : TextFits text) : Sized (count + 2) (insertText metaSys suffix text) := by
  unfold insertText
  split
  · exact sized.mono (Nat.le_add_right _ _)
  · exact sized_insert sized key fits

theorem get_bytes_fits (sized : Sized count metaSys) (found : getBytes metaSys suffix = some value) :
    BinFits value := by
  rcases or_eq_some_iff.1 found with first | ⟨_, second⟩
  · exact sized.get_value first
  · exact sized.get_value second

theorem consistent_from_mem {V : Type} [DecidableEq V] {isEmpty : V → Bool} {suffix : String}
    {entries : List (String × V)} {start : Option V} {value : V}
    (found : consistentFrom isEmpty suffix start entries = some value) :
    start = some value ∨ ∃ key, (key, value) ∈ entries := by
  induction entries generalizing start with
  | nil => exact .inl found
  | cons entry entries ih =>
    obtain ⟨key, candidate⟩ := entry
    have later : ∀ {begin : Option V},
        consistentFrom isEmpty suffix begin entries = some value →
        begin = some value ∨ ∃ key', (key', value) ∈ (key, candidate) :: entries := by
      intro begin isFound
      rcases ih isFound with same | ⟨key', member⟩
      · exact .inl same
      · exact .inr ⟨key', mem_cons_of_mem _ member⟩
    rw [consistentFrom] at found
    split at found
    · exact later found
    split at found
    · cases found
    · rcases later found with same | member
      · cases same
        exact .inr ⟨key, mem_cons_self⟩
      · exact .inr member

theorem get_consistent_fits (sized : Sized count metaSys)
    (found : getConsistentBytes os metaSys suffix = some value) : BinFits value := by
  rcases consistent_from_mem found with impossible | ⟨key, member⟩
  · cases impossible
  · exact (sized.each _ (os.walk.mem_enumerate.1 member)).2

end Inserts

/-- The texts of a replication state are elements, as keys and as values. -/
structure ReplicationState.Writable (env : Runtime) (state : ReplicationState) : Prop where
  status : ∀ text, state.replicationStatusInternal = some text → TextFits text
  purge : ∀ text, state.versionPurgeStatusInternal = some text → TextFits text
  replicaTimestamp : TextFits (formatReplicationTimestamp env state.replicaTimestamp)
  replicationTimestamp : TextFits (formatReplicationTimestamp env state.replicationTimestamp)
  resets : ∀ entry ∈ state.resetStatusesMap.entries, KeyFits (resetSuffix entry.1) ∧ TextFits entry.2

/-- The texts of a request are elements, as keys and as values, its lists are shorter than
`2 ^ 32`, and its mod time is a count of `i64` nanoseconds. -/
structure FileInfo.Writable (env : Runtime) (fi : FileInfo) : Prop where
  metadata : ∀ entry ∈ fi.metadata.entries, TextFits entry.1 ∧ TextFits entry.2 ∧
    ∀ suffix, stripInternalPrefix env.toPlatform entry.1 = some suffix → KeyFits suffix
  checksum : ∀ bytes, fi.checksum = some bytes → BinFits bytes
  transitionStatus : TextFits fi.transitionStatus
  transitionedObjname : TextFits fi.transitionedObjname
  transitionTier : TextFits fi.transitionTier
  transitionVersion : ∀ text, fi.transitionVersion = some text → TextFits text
  parts : ∀ part ∈ fi.parts, TextFits part.etag ∧ BinFits (part.index.getD [])
  partCount : fi.parts.length < 2 ^ 32
  distribution : fi.erasure.distribution.length < 2 ^ 32
  modTime : timeFits fi.modTime
  replication : ∀ state, fi.replicationStateInternal = some state → state.Writable env

/-- The reset entries of a request. -/
def FileInfo.resetCount (fi : FileInfo) : Nat :=
  (fi.replicationStateInternal.map fun state => state.resetStatusesMap.entries.length).getD 0

/-- A bound of the entries that a request adds to a map. -/
def FileInfo.writtenEntries (fi : FileInfo) : Nat :=
  3 * fi.metadata.entries.length + 2 * fi.resetCount + 2048

section Transition

variable {env : Runtime} {fi : FileInfo} (writable : fi.Writable env) {count : Nat}
  {metaSys : SysMetadata}

theorem sized_transition_state (sized : Sized count metaSys) (state : TransitionVersionState)
    (sourceMetadata : Metadata) :
    Sized (count + 2) (setTransitionVersionState metaSys state sourceMetadata) := by
  unfold setTransitionVersionState
  split
  · exact (sized_remove sized _).mono (Nat.le_add_right _ _)
  · apply sized_insert sized (by decide)
    cases state with
    | unknown | knownDisabled | suspendedNull | exact => decide

include writable

theorem transitioned_version_fits
    (found : transitionedVersionBytes fi = some bytes) : BinFits bytes := by
  rcases or_eq_some_iff.1 found with isText | ⟨_, isId⟩
  · obtain ⟨text, given, rfl⟩ := map_eq_some_iff.1 isText
    exact writable.transitionVersion text given
  · obtain ⟨id, _, rfl⟩ := map_eq_some_iff.1 isId
    unfold BinFits uuidBytes
    rw [be_bytes_length]
    decide

theorem sized_insert_transition (sized : Sized count metaSys) (withState : Bool) :
    Sized (count + 10) (insertTransition fi withState metaSys) := by
  have versioned : Sized (count + 6) (insertOptional (insertText (insertText metaSys
      suffixTransitionStatus fi.transitionStatus) suffixTransitionedObjectname
      fi.transitionedObjname) suffixTransitionedVersionId (transitionedVersionBytes fi)) := by
    apply sized_insert_optional _ (by decide) fun bytes => transitioned_version_fits writable
    apply sized_insert_text _ (by decide) writable.transitionedObjname
    exact sized_insert_text sized (by decide) writable.transitionStatus
  apply sized_insert_text _ (by decide) writable.transitionTier
  split
  · exact sized_transition_state versioned _ _
  · exact versioned.mono (by omega)

end Transition

/-- Both maps of an object have at most so many entries. -/
structure MetaObject.MapsWithin (count : Nat) (object : MetaObject) : Prop where
  metaSys : Sized count object.metaSys
  metaUser : SizedText count object.metaUser

section Objects

variable {env : Runtime} {fi : FileInfo} (writable : fi.Writable env) {count : Nat}
  {object : MetaObject}

theorem MetaObject.MapsWithin.mono (within : object.MapsWithin count) {more : Nat}
    (le : count ≤ more) : object.MapsWithin more :=
  ⟨within.metaSys.mono le, within.metaUser.mono le⟩

theorem remove_restore_within (within : object.MapsWithin count) :
    object.removeRestoreHdrs.MapsWithin count where
  metaSys := sized_remove (sized_remove within.metaSys _) _
  metaUser := ((remove within.metaUser _).remove _).remove _

theorem reset_inline_within (within : object.MapsWithin count) :
    object.resetInlineData.MapsWithin count where
  metaSys := sized_remove within.metaSys _
  metaUser := within.metaUser

theorem drop_replaced_within (within : object.MapsWithin count) (metadata : Metadata) :
    (object.dropReplaced metadata).MapsWithin count where
  metaSys := filter within.metaSys _
  metaUser := within.metaUser

theorem clear_user_within (within : object.MapsWithin count) (fi : FileInfo) :
    (object.clearUserMetadata fi).MapsWithin count where
  metaSys := by
    have cleared : ∀ metaSys suffix, Sized count metaSys →
        Sized count (if containsKeyStr fi.metadata suffix then metaSys
          else removeBytes metaSys suffix) := by
      intro metaSys suffix sized
      split
      · exact sized
      · exact sized_remove sized suffix
    exact cleared _ _ (cleared _ _ within.metaSys)
  metaUser := KeyMap.within_empty.mono (Nat.zero_le _)

theorem copy_reconciled_sized {previous next : SysMetadata} {other : Nat}
    (previousSized : Sized other previous) (sized : Sized count next) :
    Sized (count + 6) (copyReconciled env previous next) := by
  have copied : ∀ metaSys suffix bound, KeyFits suffix → Sized bound metaSys →
      Sized (bound + 2) (insertOptional (removeBytes metaSys suffix) suffix
        (getConsistentBytes env.toPlatform previous suffix)) := by
    intro metaSys suffix bound key isSized
    apply sized_insert_optional (sized_remove isSized suffix) key
    exact fun bytes found => get_consistent_fits previousSized found
  exact copied _ _ _ (by decide) (copied _ _ _ (by decide) (copied _ _ _ (by decide) sized))

include writable

theorem metadata_destination_fits {text : String}
    (found : getStr env.toPlatform fi.metadata suffixTransitionTierDestinationId = some text) :
    TextFits text := by
  have listed : ∀ key value, fi.metadata.get key = some value → TextFits value :=
    fun key value isValue => (writable.metadata _ (KeyMap.get_eq_some.1 isValue)).2.1
  rcases or_eq_some_iff.1 found with either | ⟨_, scanned⟩
  · rcases or_eq_some_iff.1 either with first | ⟨_, second⟩
    · exact listed _ _ first
    · exact listed _ _ second
  · obtain ⟨entry, isEntry, rfl⟩ := map_eq_some_iff.1 scanned
    have member := env.walk.mem_enumerate.1 (mem_of_find?_eq_some isEntry)
    exact (writable.metadata entry member).2.1

theorem set_transition_within (within : object.MapsWithin count) :
    (object.setTransition env fi).MapsWithin (count + 12) where
  metaSys := by
    have named := sized_insert (sized_insert within.metaSys
      (show KeyFits suffixTransitionStatus by decide) writable.transitionStatus)
      (show KeyFits suffixTransitionedObjectname by decide) writable.transitionedObjname
    apply sized_insert_optional _ (by decide)
    · intro bytes found
      obtain ⟨text, isText, rfl⟩ := map_eq_some_iff.1 found
      exact metadata_destination_fits writable isText
    · apply sized_insert _ (by decide) writable.transitionTier
      refine sized_transition_state ?_ _ _
      cases found : transitionedVersionBytes fi with
      | none => exact (sized_remove named _).mono (by omega)
      | some version =>
        exact sized_insert named (by decide) (transitioned_version_fits writable found)
  metaUser := within.metaUser.mono (by omega)

omit writable in
theorem store_entries_within {entries : List (String × String)}
    (fits : ∀ entry ∈ entries, TextFits entry.1 ∧ TextFits entry.2)
    (within : object.MapsWithin count) :
    (entries.foldl (MetaObject.storeMetadata os) object).MapsWithin (count + entries.length) := by
  induction entries generalizing object count with
  | nil => exact within
  | cons entry entries ih =>
    obtain ⟨here, rest⟩ := forall_mem_cons.1 fits
    have stored : (object.storeMetadata os entry).MapsWithin (count + 1) := by
      unfold storeMetadata
      split
      · split
        · exact within.mono (Nat.le_succ _)
        · exact ⟨insert within.metaSys here.1 here.2,
            within.metaUser.mono (Nat.le_succ _)⟩
      · exact ⟨within.metaSys.mono (Nat.le_succ _),
          insert within.metaUser here.1 here.2⟩
    rw [foldl_cons, length_cons, Nat.add_comm entries.length 1, ← Nat.add_assoc]
    exact ih rest stored

theorem store_all_within (within : object.MapsWithin count) :
    (object.storeAll env fi.metadata).MapsWithin (count + fi.metadata.entries.length) := by
  have fits : ∀ entry ∈ env.walk.enumerate fi.metadata.entries,
      TextFits entry.1 ∧ TextFits entry.2 := by
    intro entry member
    have each := writable.metadata entry (env.walk.mem_enumerate.1 member)
    exact ⟨each.1, each.2.1⟩
  have stored : (object.storeAll env fi.metadata).MapsWithin
      (count + (env.walk.enumerate fi.metadata.entries).length) := store_entries_within fits within
  rwa [env.walk.length_enumerate] at stored

theorem from_file_info_within :
    (MetaObject.fromFileInfo env fi).MapsWithin (fi.metadata.entries.length + 12) := by
  have empty : default.MapsWithin 0 := ⟨KeyMap.within_empty, KeyMap.within_empty⟩
  have split := store_all_within writable empty
  rw [Nat.zero_add] at split
  refine ⟨?_, split.metaUser.mono (Nat.le_add_right _ _)⟩
  apply sized_insert_optional _ (by decide) writable.checksum
  exact sized_insert_transition writable split.metaSys _

theorem apply_update_within (within : object.MapsWithin count) (replaceUserMetadata : Bool) :
    (object.applyUpdate env fi replaceUserMetadata).MapsWithin
      (count + fi.metadata.entries.length + 2) := by
  have cleared : (if replaceUserMetadata then object.clearUserMetadata fi else object).MapsWithin
      count := by
    split
    · exact clear_user_within within fi
    · exact within
  have stored := store_all_within writable (drop_replaced_within cleared fi.metadata)
  refine ⟨?_, stored.metaUser.mono (Nat.le_add_right _ _)⟩
  exact sized_insert_optional stored.metaSys (by decide) writable.checksum

end Objects

section Replicated

variable {env : Runtime} {fi : FileInfo} {state : ReplicationState} {count : Nat}
  {metaSys : SysMetadata}

theorem persist_state_sized (writable : state.Writable env) (sized : Sized count metaSys) :
    Sized (count + 8) (persistDeleteMarkerReplicationState env metaSys state) := by
  have replica : Sized (count + 4) (if state.replicaStatus.isEmpty then metaSys
      else insertBytes
        (insertBytes metaSys suffixReplicaStatus (utf8 state.replicaStatus.asStr))
        suffixReplicaTimestamp
        (utf8 (formatReplicationTimestamp env state.replicaTimestamp))) := by
    split
    · exact sized.mono (by omega)
    · apply sized_insert _ (by decide) writable.replicaTimestamp
      apply sized_insert sized (by decide)
      cases state.replicaStatus with
      | pending | completed | completedLegacy | failed | replica | empty => decide
  unfold persistDeleteMarkerReplicationState
  dsimp only
  split
  · exact replica.mono (by omega)
  · rename_i status isStatus
    split
    · exact replica.mono (by omega)
    · apply sized_insert _ (by decide) writable.replicationTimestamp
      exact sized_insert replica (by decide) (writable.status status isStatus)

theorem persist_resets_sized (writable : state.Writable env) (sized : Sized count metaSys) :
    Sized (count + 2 * state.resetStatusesMap.entries.length)
      (persistResetStatuses env metaSys state.resetStatusesMap) := by
  have stored : Sized (count + 2 * (env.walk.enumerate state.resetStatusesMap.entries).length)
      (persistResetStatuses env metaSys state.resetStatusesMap) := by
    apply foldl _ sized
    intro entry member start bound within
    have each := writable.resets entry (env.walk.mem_enumerate.1 member)
    exact sized_insert within each.1 each.2
  rwa [env.walk.length_enumerate] at stored

theorem text_fits_append (left right : String) (short : byteLen left + byteLen right ≤ maxMsgpElementSize) :
    TextFits (left ++ right) := by
  have length : (utf8 (left ++ right)).length = byteLen left + byteLen right :=
    String.utf8ByteSize_append
  unfold TextFits
  omega

theorem target_key_fits {arn version : String} (valid : validTargetDeleteMarkerVersion arn version = true) :
    KeyFits (suffixReplicationDeleteMarkerVersionArnPrefix ++ arn) ∧ TextFits version := by
  unfold validTargetDeleteMarkerVersion at valid
  simp only [Bool.and_eq_true, decide_eq_true_eq] at valid
  have limits : maxArnLen = 1024 ∧ maxVersionIdLen = 1024 ∧ maxMsgpElementSize = 16777216 := by
    decide
  have prefixes : byteLen rustfsInternalPrefix ≤ 64 ∧ byteLen minioInternalPrefix ≤ 64 ∧
      byteLen suffixReplicationDeleteMarkerVersionArnPrefix ≤ 64 := by
    decide
  have joined : byteLen (suffixReplicationDeleteMarkerVersionArnPrefix ++ arn) =
      byteLen suffixReplicationDeleteMarkerVersionArnPrefix + byteLen arn :=
    String.utf8ByteSize_append
  refine ⟨⟨text_fits_append _ _ ?_, text_fits_append _ _ ?_⟩, ?_⟩
  · omega
  · omega
  · change byteLen version ≤ maxMsgpElementSize
    omega

theorem bounded_targets_within (env : Runtime) (transport versions : Metadata) :
    (boundedTargets env transport versions).Within
      (fun arn => KeyFits (suffixReplicationDeleteMarkerVersionArnPrefix ++ arn)) TextFits
      maxEntries := by
  apply List.foldlRecOn _ _ (KeyMap.within_empty.mono (Nat.zero_le _))
  intro bounded within entry _
  unfold boundTarget
  split
  · exact within
  · rename_i taken
    have valid : validTargetDeleteMarkerVersion entry.1 entry.2 = true := by
      by_contra refused
      exact taken (by simp [refused])
    obtain ⟨key, value⟩ := target_key_fits valid
    have inserted := insert within key value
    dsimp only
    split
    · refine ⟨?_, fun other member => inserted.each other ((dropLast_sublist _).subset member)⟩
      have few := inserted.few
      change (List.dropLast _).length ≤ _
      rw [length_dropLast]
      omega
    · rename_i few
      exact ⟨Nat.le_of_not_lt few, inserted.each⟩

theorem persist_target_versions_sized (sized : Sized count metaSys) (versions transport : Metadata) :
    Sized (count + 2000) (persistTargetDeleteMarkerVersions env metaSys versions transport) := by
  unfold persistTargetDeleteMarkerVersions
  obtain ⟨found, corrupt⟩ := targetDeleteMarkerVersions env.toPlatform transport
  dsimp only
  split
  · exact sized.mono (by omega)
  · have bounded := bounded_targets_within env found versions
    have few : (boundedTargets env found versions).entries.length ≤ 1000 := bounded.few
    apply mono _ (show count + 2 *
      (boundedTargets env found versions).entries.length ≤ count + 2000 by omega)
    apply foldl _ sized
    intro entry member start bound within
    have each := bounded.each entry member
    exact sized_insert within each.1 each.2

theorem persist_targets_sized (writable : state.Writable env) (sized : Sized count metaSys) :
    Sized (count + 2 * state.resetStatusesMap.entries.length + 2000)
      (persistTargets env fi metaSys state) :=
  persist_target_versions_sized (persist_resets_sized writable sized) _ _

end Replicated

section Ids

theorem hex_digits_length (width value : Nat) : (hexDigits width value).length = width := by
  induction width generalizing value with
  | zero => rfl
  | succ width ih =>
    rw [hexDigits, length_append, ih]
    rfl

theorem hyphenate_length_le (groups : List Nat) (digits : List Char) :
    (hyphenate groups digits).length ≤ digits.length + groups.length := by
  induction groups generalizing digits with
  | nil => exact Nat.zero_le _
  | cons size groups ih =>
    cases groups with
    | nil =>
      rw [hyphenate, length_take]
      omega
    | cons next groups =>
      have rest := ih (digits.drop size)
      rw [hyphenate, length_append, length_cons, length_take]
      rw [length_drop] at rest
      rw [length_cons]
      omega
      exact fun empty => cons_ne_nil _ _ empty

theorem utf8_len_le (letters : List Char) : String.utf8Len letters ≤ 4 * letters.length := by
  induction letters with
  | nil => exact Nat.le_refl _
  | cons letter letters ih =>
    have short := letter.utf8Size_le_four
    rw [String.utf8Len_cons, length_cons]
    omega

theorem uuid_text_fits (id : Uuid) : TextFits id.text := by
  have bytes : ∀ text : String, (utf8 text).length = text.utf8ByteSize := fun _ => rfl
  have letters := hyphenate_length_le [8, 4, 4, 4, 12] (hexDigits 32 id.toNat)
  have short := utf8_len_le (hyphenate [8, 4, 4, 4, 12] (hexDigits 32 id.toNat))
  have limit : 1000 ≤ maxMsgpElementSize := by decide
  rw [hex_digits_length] at letters
  unfold TextFits
  rw [bytes, Uuid.text, String.utf8ByteSize_ofList]
  simp only [length_cons, length_nil] at letters
  omega

end Ids

section Markers

variable {env : Runtime} {fi : FileInfo} (writable : fi.Writable env) {count : Nat}
  {metaSys : SysMetadata} {state : ReplicationState}

structure DurableMetadata.FoundWithin (count : Nat) (found : DurableMetadata) : Prop where
  metaSys : Sized count found.metaSys
  durable : found.durable.Within KeyFits (fun held => TextFits held.1) count

theorem collect_within {entry : String × String} {found : DurableMetadata}
    (key : TextFits entry.1) (value : TextFits entry.2)
    (suffixes : ∀ suffix, stripInternalPrefix env.toPlatform entry.1 = some suffix → KeyFits suffix)
    (within : found.FoundWithin count) :
    (found.collect env.toPlatform entry).FoundWithin (count + 1) := by
  have same : found.FoundWithin (count + 1) :=
    ⟨within.metaSys.mono (Nat.le_succ _), within.durable.mono (Nat.le_succ _)⟩
  unfold DurableMetadata.collect
  split
  · exact same
  split
  · exact ⟨insert within.metaSys key value, same.durable⟩
  split
  · exact same
  · rename_i suffix isSuffix
    have fits := suffixes suffix isSuffix
    unfold DurableMetadata.hold
    split
    · exact ⟨same.metaSys, within.durable.insert fits value⟩
    · split
      · exact ⟨same.metaSys, within.durable.insert fits value⟩
      · exact same

include writable

theorem durable_metadata_sized :
    Sized (3 * fi.metadata.entries.length) (durableMetadata env fi.metadata) := by
  have collected : ∀ entries : List (String × String), entries ⊆ fi.metadata.entries →
      ∀ found bound, DurableMetadata.FoundWithin bound found →
        (entries.foldl (DurableMetadata.collect env.toPlatform) found).FoundWithin
          (bound + entries.length) := by
    intro entries
    induction entries with
    | nil => exact fun _ found bound within => within
    | cons entry entries ih =>
      intro known found bound within
      have each := writable.metadata entry (known mem_cons_self)
      have next := ih (fun other member => known (mem_cons_of_mem _ member)) _ _
        (collect_within each.1 each.2.1 each.2.2 within)
      rw [length_cons, Nat.add_comm entries.length 1, ← Nat.add_assoc]
      exact next
  have found := collected (env.walk.enumerate fi.metadata.entries)
    (fun entry member => env.walk.mem_enumerate.1 member) ⟨.empty, .empty⟩ 0
    ⟨KeyMap.within_empty, KeyMap.within_empty⟩
  rw [Nat.zero_add, env.walk.length_enumerate] at found
  have few := found.durable.few
  apply mono _ (show fi.metadata.entries.length + 2 * (env.walk.enumerate
    ((env.walk.enumerate fi.metadata.entries).foldl (DurableMetadata.collect env.toPlatform)
      ⟨.empty, .empty⟩).durable.entries).length ≤ 3 * fi.metadata.entries.length by
    rw [env.walk.length_enumerate]
    omega)
  apply foldl _ found.metaSys
  intro entry member start bound within
  have each := found.durable.each entry (env.walk.mem_enumerate.1 member)
  exact sized_insert within each.1 each.2

omit writable in
theorem reset_count_eq (present : fi.replicationStateInternal = some state) :
    fi.resetCount = state.resetStatusesMap.entries.length := by
  unfold FileInfo.resetCount
  rw [present]
  rfl

theorem replicated_sized (present : fi.replicationStateInternal = some state)
    (sized : Sized count metaSys) :
    Sized (count + 2 * fi.resetCount + 2008)
      (persistTargets env fi (persistDeleteMarkerReplicationState env metaSys state) state) := by
  have isWritable := writable.replication state present
  have stored : Sized (count + 8 + 2 * state.resetStatusesMap.entries.length + 2000)
      (persistTargets env fi (persistDeleteMarkerReplicationState env metaSys state) state) :=
    persist_targets_sized isWritable (persist_state_sized isWritable sized)
  apply stored.mono
  rw [reset_count_eq present]
  omega

theorem marker_from_file_info_sized :
    Sized fi.writtenEntries (MetaDeleteMarker.fromFileInfo env fi).metaSys := by
  have durable := durable_metadata_sized writable
  have freed : Sized (3 * fi.metadata.entries.length + 2) (if fi.tierFreeVersion then
      insertBytes (durableMetadata env fi.metadata) suffixFreeVersion []
    else durableMetadata env fi.metadata) := by
    split
    · exact sized_insert durable (by decide) (by decide)
    · exact durable.mono (Nat.le_add_right _ _)
  have moved := sized_insert_transition writable freed
    (!fi.transitionStatus.isEmpty || fi.tierFreeVersion)
  unfold MetaDeleteMarker.fromFileInfo FileInfo.writtenEntries
  dsimp only
  split
  · exact moved.mono (by omega)
  · rename_i state present
    exact (replicated_sized writable present moved).mono (by omega)

theorem purge_status_fits : BinFits fi.purgeStatusBytes := by
  unfold FileInfo.purgeStatusBytes
  cases present : fi.replicationStateInternal with
  | none => decide
  | some state =>
    cases purge : state.versionPurgeStatusInternal with
    | none =>
      simp only [bind_some, purge]
      decide
    | some text =>
      simp only [bind_some, purge]
      exact (writable.replication state present).purge text purge

omit writable in
theorem incarnation_metadata_sized : Sized 2 (fi.incarnationMetadata env) := by
  have empty : Sized 0 (.empty : SysMetadata) := KeyMap.within_empty
  apply sized_insert_optional empty (by decide)
  intro bytes found
  obtain ⟨id, _, rfl⟩ := map_eq_some_iff.1 found
  exact uuid_text_fits id

theorem delete_marker_metadata_sized : Sized fi.writtenEntries (fi.deleteMarkerMetadata env) := by
  have start : Sized 2 (fi.incarnationMetadata env) := incarnation_metadata_sized
  have purged : ∀ {bound : Nat} {stored : SysMetadata}, Sized bound stored →
      Sized (bound + 2) (if fi.versionPurgeStatus.isEmpty then stored
        else insertBytes stored suffixPurgestatus fi.purgeStatusBytes) := by
    intro bound stored sized
    split
    · exact sized.mono (Nat.le_add_right _ _)
    · exact sized_insert sized (by decide) (purge_status_fits writable)
  unfold FileInfo.deleteMarkerMetadata FileInfo.writtenEntries
  split
  · rename_i state present
    have isWritable := writable.replication state present
    apply mono (persist_targets_sized isWritable
      (purged (persist_state_sized isWritable start)))
    rw [reset_count_eq present]
    omega
  · exact (purged start).mono (by omega)

theorem apply_replication_sized {marker : MetaDeleteMarker} (sized : Sized count marker.metaSys) :
    Sized (count + fi.writtenEntries) (marker.applyReplication env fi).metaSys := by
  unfold MetaDeleteMarker.applyReplication FileInfo.writtenEntries
  split
  · exact sized.mono (Nat.le_add_right _ _)
  · rename_i state present
    exact (replicated_sized writable present sized).mono (by omega)

theorem mark_purge_within (within : object.MapsWithin count) :
    (object.markPurge env fi).MapsWithin (count + fi.writtenEntries) where
  metaSys := by
    have purged : Sized (count + 2)
        (insertBytes object.metaSys suffixPurgestatus fi.purgeStatusBytes) :=
      sized_insert within.metaSys (by decide) (purge_status_fits writable)
    unfold markPurge FileInfo.writtenEntries
    split
    · exact purged.mono (by omega)
    · rename_i state present
      have stored := persist_resets_sized (writable.replication state present) purged
      apply stored.mono
      rw [reset_count_eq present]
      omega
  metaUser := within.metaUser.mono (Nat.le_add_right _ _)

end Markers

section Cleanup

variable {env : Runtime} {fi : FileInfo} {count : Nat} {object : MetaObject} {version : FileMetaVersion}

theorem free_version_metadata_sized (sized : Sized count object.metaSys) :
    Sized 10 object.freeVersionMetadata := by
  have empty : Sized 0 (.empty : SysMetadata) := KeyMap.within_empty
  have suffixes : ∀ suffix ∈ freeVersionSuffixes, KeyFits suffix := by decide
  have started : Sized 2 (insertBytes .empty suffixFreeVersion []) :=
    sized_insert empty (by decide) (by decide)
  have copied : Sized (2 + 2 * freeVersionSuffixes.length)
      object.freeVersionMetadata := by
    apply foldl _ started
    intro suffix member start bound within
    exact sized_insert_optional within (suffixes suffix member) fun bytes => get_bytes_fits sized
  exact copied

theorem free_version_destination_fits (sized : Sized count object.metaSys)
    {destination : Option Bytes} (found : object.freeVersionDestination env = .ok destination)
    (isBytes : destination = some bytes) : BinFits bytes := by
  subst isBytes
  unfold freeVersionDestination at found
  split at found
  · split at found
    · rename_i isFound
      cases found
      exact get_consistent_fits sized (filter_eq_some_iff.1 isFound).1
    · cases found
  · cases found

theorem init_free_version_eq (sized : Sized count object.metaSys)
    (made : object.initFreeVersion env fi = .ok (some version)) :
    ∃ id metaSys, Sized 12 metaSys ∧ version = { FileMetaVersion.default with
      versionType := .delete
      deleteMarker := some ⟨some id, object.modTime, metaSys⟩ } := by
  unfold initFreeVersion at made
  split at made
  · cases made
  split at made
  · cases parsed : parseUuidOr env (fi.tierFreeVersionId env) with
    | error error =>
      rw [parsed] at made
      cases made
    | ok id =>
      cases destined : object.freeVersionDestination env with
      | error error =>
        rw [parsed, destined] at made
        cases made
      | ok destination =>
        rw [parsed, destined] at made
        cases made
        refine ⟨id, _, ?_, rfl⟩
        apply sized_insert_optional (free_version_metadata_sized sized) (by decide)
        exact fun bytes => free_version_destination_fits sized destined
  · cases made

theorem canonicalize_transition_sized (sized : Sized count object.metaSys) :
    Sized (count + 12) (FileMeta.canonicalizeTransition env object).metaSys := by
  have suffixes : ∀ suffix ∈ FileMeta.transitionSuffixes, KeyFits suffix := by decide
  have copied : Sized (count + 2 * FileMeta.transitionSuffixes.length)
      (FileMeta.canonicalizeTransition env object).metaSys := by
    unfold FileMeta.canonicalizeTransition
    dsimp only
    apply foldl _ sized
    intro suffix member start bound within
    apply sized_insert_optional within (suffixes suffix member)
    intro bytes found
    obtain ⟨entry, isEntry, rfl⟩ := map_eq_some_iff.1 found
    exact (within.each entry (env.walk.mem_enumerate.1 (mem_of_find?_eq_some isEntry))).2
  exact copied

end Cleanup

end Rustfs.Filemeta
