import Rustfs.Ecstore.DataMovement
import Rustfs.Filemeta.Metacache
import Rustfs.Library.Lists
import Rustfs.Library.Slots
import Mathlib.Data.List.Lex
import Mathlib.Data.List.Perm.Lattice

/-!
# The union of version histories

`merge_object_entry_versions` of `ecstore/src/store/list_objects.rs`: the copies of an object in
several sets are put into slots, one for each version id and kind, and the slots are sorted. Every
failure is `FileCorrupt`; the texts are left out.
-/

namespace Rustfs.Ecstore

open List Option Filemeta
open Filemeta.FileMetaVersionHeader (optionKey time_key_lt time_key_injective time_not_lt
  sorts_before_iff)
open Rustfs.Library Rustfs.Library.Lists

/-- The version id that is not nil, and whether the version is a free version. -/
abbrev VersionIdentity := Option Uuid × Bool

structure VersionCopy where
  version : FileMetaShallowVersion
  info : ObjectInfo
  deriving DecidableEq

def identityOf (header : FileMetaVersionHeader) : VersionIdentity :=
  (header.versionId.filter fun id => !id.isNil, header.freeVersion)

/-- The copy of a version, if its body is valid and agrees with its header. -/
def readCopy (host : InfoHost) (name : String) (version : FileMetaShallowVersion) :
    Option (VersionIdentity × VersionCopy) :=
  match version.parseVersionMeta host.toRuntime with
  | .error _ => none
  | .ok parsed =>
    if !parsed.valid || parsed.versionType ≠ version.header.versionType then none
    else
      match parsed.intoFileinfo host.toRuntime "" name true with
      | .error _ => none
      | .ok fi =>
        let versionId := fi.versionId.filter fun id => !id.isNil
        if versionId ≠ (version.header.versionId.filter fun id => !id.isNil) ||
            fi.modTime ≠ version.header.modTime ||
            fi.tierFreeVersion ≠ version.header.freeVersion then none
        else some ((versionId, version.header.freeVersion), ⟨version, .fromFileInfo host fi⟩)

def VersionCopy.metaOrder (copy : VersionCopy) : List Nat := copy.version.metaBytes.map UInt8.toNat

/-- A null version gives way to a newer one; other copies have to be equivalent, and the one
with the smaller bytes stays. -/
def settle (host : InfoHost) (identity : VersionIdentity) (copy previous : VersionCopy) :
    Option VersionCopy :=
  if identity.1.isNone && copy.info.modTime ≠ previous.info.modTime then
    some (if optionLt previous.info.modTime copy.info.modTime then copy else previous)
  else if !DataMovement.isEquivalentCopy host copy.info previous.info then none
  else some (if copy.metaOrder < previous.metaOrder then copy else previous)

abbrev VersionSlots := List (VersionIdentity × VersionCopy)

def mergeVersion (host : InfoHost) (name : String) (slots : VersionSlots)
    (version : FileMetaShallowVersion) : Option VersionSlots :=
  (readCopy host name version).bind (Slots.place (settle host) slots)

def mergeEntry (host : InfoHost) (name : String) (slots : VersionSlots) (entry : MetaCacheEntry) :
    Option VersionSlots :=
  match entry.fileMeta host.hash with
  | .error _ => none
  | .ok xl => if xl.versions.isEmpty then none else xl.versions.foldlM (mergeVersion host name) slots

def ownsRemote (info : ObjectInfo) : Bool :=
  !info.transitionedObject.freeVersion && info.transitionedObject.status = transitionComplete

/-- A free version whose remote object some live version still owns. -/
def isSuperseded (host : InfoHost) (slots : VersionSlots) (info : ObjectInfo) : Bool :=
  info.transitionedObject.freeVersion && slots.any fun live =>
    ownsRemote live.2.info && DataMovement.freeVersionRemoteTupleMatches host info live.2.info

def retained (host : InfoHost) (slots : VersionSlots) : VersionSlots :=
  slots.filter fun slot => !isSuperseded host slots slot.2.info

def sortedVersions (host : InfoHost) (slots : VersionSlots) : List FileMetaShallowVersion :=
  ((host.walk.enumerate slots).map fun slot => slot.2.version).mergeSort fun left right =>
    !right.header.sortsBefore left.header

def mergedVersions (host : InfoHost) (name : String) (entries : List MetaCacheEntry) :
    Option (List FileMetaShallowVersion) :=
  (entries.foldlM (mergeEntry host name) []).map fun slots =>
    sortedVersions host (retained host slots)

def mergeObjectEntryVersions (host : InfoHost) (first : MetaCacheEntry)
    (others : List MetaCacheEntry) : Option MetaCacheEntry :=
  (mergedVersions host first.name (first :: others)).map fun versions =>
    let merged : FileMeta := { FileMeta.default with versions := versions }
    { name := first.name
      metadata := merged.marshalMsg host.hash
      cached := some merged
      reusable := true }

def readEntry (host : InfoHost) (name : String) (entry : MetaCacheEntry) : Option VersionSlots :=
  match entry.fileMeta host.hash with
  | .error _ => none
  | .ok xl => if xl.versions.isEmpty then none else xl.versions.mapM (readCopy host name)

def copiesOf (host : InfoHost) (name : String) (entries : List MetaCacheEntry) : VersionSlots :=
  entries.flatMap fun entry => (readEntry host name entry).getD []

def Readable (host : InfoHost) (name : String) (entries : List MetaCacheEntry) : Prop :=
  ∀ entry ∈ entries, (readEntry host name entry).isSome

variable {item : VersionIdentity × VersionCopy}

section Reading

variable {host : InfoHost} {name : String} {entries : List MetaCacheEntry} {slots : VersionSlots}

theorem merge_entry_eq (slots : VersionSlots) (entry : MetaCacheEntry) :
    mergeEntry host name slots entry =
      (readEntry host name entry).bind (Slots.placeAll (settle host) slots) := by
  unfold mergeEntry readEntry
  split
  · rfl
  · split
    · rfl
    · exact foldlM_read (readCopy host name) (Slots.place (settle host)) _ slots

theorem merge_entries_unreadable (slots : VersionSlots)
    (unreadable : ∃ entry ∈ entries, readEntry host name entry = none) :
    entries.foldlM (mergeEntry host name) slots = none := by
  induction entries generalizing slots with
  | nil => simp at unreadable
  | cons entry rest ih =>
    rw [foldlM_cons, merge_entry_eq]
    obtain ⟨other, member, failed⟩ := unreadable
    rcases mem_cons.1 member with rfl | inRest
    · rw [failed]
      rfl
    · cases (readEntry host name entry).bind (Slots.placeAll (settle host) slots) with
      | none => rfl
      | some next => exact ih next ⟨other, inRest, failed⟩

theorem merge_entries_readable (slots : VersionSlots) (readable : Readable host name entries) :
    entries.foldlM (mergeEntry host name) slots =
      Slots.placeAll (settle host) slots (copiesOf host name entries) := by
  induction entries generalizing slots with
  | nil => rfl
  | cons entry rest ih =>
    obtain ⟨here, others⟩ := forall_mem_cons.1 readable
    obtain ⟨items, isItems⟩ := isSome_iff_exists.1 here
    rw [foldlM_cons, merge_entry_eq, isItems, copiesOf, flatMap_cons, isItems,
      getD_some, Slots.placeAll, foldlM_append]
    congr 1
    funext next
    exact ih next others

theorem read_copy_cases {version : FileMetaShallowVersion}
    (read : readCopy host name version = some item) :
    item.1 = identityOf version.header ∧ item.2.version = version := by
  unfold readCopy at read
  split at read
  · cases read
  · split at read
    · cases read
    · split at read
      · cases read
      · dsimp only at read
        split at read
        · cases read
        · rename_i agrees
          cases read
          simp only [ne_eq, Bool.or_eq_true, decide_eq_true_eq, not_or, not_not] at agrees
          exact ⟨Prod.ext agrees.1.1 rfl, rfl⟩

end Reading

def VersionCopy.time (copy : VersionCopy) : WithBot ℤ :=
  optionKey OffsetDateTime.unixTimestampNanos copy.info.modTime

/-- A newer null version, or the smaller bytes. -/
def Prefers (identity : VersionIdentity) (best other : VersionCopy) : Prop :=
  (identity.1 = none ∧ other.time < best.time) ∨
    ((identity.1 = none → best.time = other.time) ∧ best.metaOrder ≤ other.metaOrder)

theorem settle_fair (host : InfoHost) : Slots.Fair (settle host) Prefers where
  refl := fun identity copy => .inr ⟨fun _ => rfl, le_refl _⟩
  trans := by
    rintro identity first second third (⟨isNull, newer⟩ | ⟨same, smaller⟩)
      (⟨isNull, newerStill⟩ | ⟨sameStill, smallerStill⟩)
    · exact .inl ⟨isNull, newerStill.trans newer⟩
    · exact .inl ⟨isNull, sameStill isNull ▸ newer⟩
    · exact .inl ⟨isNull, same isNull ▸ newerStill⟩
    · exact .inr ⟨fun isNull => (same isNull).trans (sameStill isNull), smaller.trans smallerStill⟩
  stays := by
    intro identity newcomer occupant value settled
    have itself : ∀ copy, Prefers identity copy copy := fun copy => .inr ⟨fun _ => rfl, le_refl _⟩
    unfold settle at settled
    split at settled
    · rename_i differ
      rw [Bool.and_eq_true, isNone_iff_eq_none, decide_eq_true_eq] at differ
      cases newer : optionLt occupant.info.modTime newcomer.info.modTime with
      | true =>
        rw [newer, if_pos rfl] at settled
        cases settled
        exact ⟨.inl rfl, itself _, .inl ⟨differ.1, (time_key_lt _ _).2 newer⟩⟩
      | false =>
        rw [newer, if_neg Bool.false_ne_true] at settled
        cases settled
        have apart : newcomer.time ≠ occupant.time := fun same =>
          differ.2 (time_key_injective same)
        refine ⟨.inr rfl, .inl ⟨differ.1, lt_of_le_of_ne ?_ apart⟩, itself _⟩
        exact (time_not_lt _ _).1 newer
    · rename_i sameTime
      have same : identity.1 = none → newcomer.time = occupant.time := by
        intro isNull
        rw [isNull] at sameTime
        unfold VersionCopy.time
        rw [show newcomer.info.modTime = occupant.info.modTime by simpa using sameTime]
      split at settled
      · cases settled
      · cases settled
        split
        · rename_i smaller
          exact ⟨.inl rfl, itself _, .inr ⟨same, le_of_lt smaller⟩⟩
        · rename_i larger
          exact ⟨.inr rfl, .inr ⟨fun isNull => (same isNull).symm, not_lt.1 larger⟩, itself _⟩

theorem prefers_both {identity : VersionIdentity} {first second : VersionCopy}
    (above : Prefers identity first second) (under : Prefers identity second first) :
    first.version.metaBytes = second.version.metaBytes := by
  have bytes : first.metaOrder = second.metaOrder := by
    rcases above with ⟨isNull, newer⟩ | ⟨same, smaller⟩
    · rcases under with ⟨_, older⟩ | ⟨same, _⟩
      · exact absurd newer older.asymm
      · exact absurd (same isNull) newer.ne
    · rcases under with ⟨isNull, newer⟩ | ⟨_, larger⟩
      · exact absurd (same isNull) newer.ne
      · exact le_antisymm smaller larger
  exact map_injective_iff.2 (fun _ _ => UInt8.toNat_inj.1) bytes

section Union

variable {host : InfoHost} {name : String} {entries : List MetaCacheEntry} {slots : VersionSlots}

theorem merged_slots_held (merged : entries.foldlM (mergeEntry host name) [] = some slots) :
    Readable host name entries ∧ Slots.Held Prefers (copiesOf host name entries) slots := by
  have readable : Readable host name entries := by
    intro entry member
    by_contra unreadable
    rw [not_isSome_iff_eq_none] at unreadable
    rw [merge_entries_unreadable [] ⟨entry, member, unreadable⟩] at merged
    cases merged
  rw [merge_entries_readable [] readable] at merged
  exact ⟨readable, Slots.held_place_all (settle_fair host) _ Slots.held_nil merged⟩

theorem copies_of_perm {order : List MetaCacheEntry} (same : order.Perm entries) :
    (copiesOf host name order).Perm (copiesOf host name entries) :=
  same.flatMap_right _

theorem mem_copies_of :
    item ∈ copiesOf host name entries →
      ∃ entry ∈ entries, ∃ xl, entry.fileMeta host.hash = .ok xl ∧
        item.2.version ∈ xl.versions ∧ readCopy host name item.2.version = some item := by
  intro member
  obtain ⟨entry, isEntry, inEntry⟩ := mem_flatMap.1 member
  refine ⟨entry, isEntry, ?_⟩
  unfold readEntry at inEntry
  split at inEntry
  · cases inEntry
  · rename_i xl isMeta
    refine ⟨xl, isMeta, ?_⟩
    split at inEntry
    · cases inEntry
    · cases read : xl.versions.mapM (readCopy host name) with
      | none =>
        rw [read] at inEntry
        cases inEntry
      | some items =>
        rw [read, getD_some] at inEntry
        obtain ⟨version, isVersion, isItem⟩ := mem_of_map_some read inEntry
        have same := (read_copy_cases isItem).2
        rw [same]
        exact ⟨isVersion, isItem⟩

end Union

end Rustfs.Ecstore
