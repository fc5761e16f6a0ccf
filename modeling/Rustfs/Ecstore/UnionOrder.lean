import Rustfs.Ecstore.VersionUnion
import Rustfs.Filemeta.StorableVersion

/-!
# The order of the sets

When the union of version histories depends neither on the order of the entries nor on how the maps
inside are enumerated. The slots of the union are contended for in the sense of `Slots`; what is
added here is when a settlement respects a preference.
-/

namespace Rustfs.Ecstore

open List Filemeta Library Utils MetaDeleteMarker
open Filemeta.FileMetaVersionHeader (sorts_before_iff id_key_injective)

def InfoHost.withWalk (host : InfoHost) (walk : Walk) : InfoHost := { host with walk := walk }

/-- Every order of the entries and every enumeration of the maps give one outcome. -/
def OrderIndependent (host : InfoHost) (name : String) (entries : List MetaCacheEntry) : Prop :=
  ∀ (walk otherWalk : Walk) (order otherOrder : List MetaCacheEntry), order.Perm entries →
    otherOrder.Perm entries →
    mergedVersions (host.withWalk walk) name order =
      mergedVersions (host.withWalk otherWalk) name otherOrder

/-- No enumeration of a metadata map changes how a copy is read or compared. Replication states
are read in the order of a map and can break this. -/
structure Steady (host : InfoHost) (name : String) (entries : List MetaCacheEntry) : Prop where
  reads : ∀ walk, ∀ entry ∈ entries,
    readEntry (host.withWalk walk) name entry = readEntry host name entry
  settles : ∀ walk, ∀ one ∈ copiesOf host name entries, ∀ two ∈ copiesOf host name entries,
    DataMovement.isEquivalentCopy (host.withWalk walk) one.2.info two.2.info =
      DataMovement.isEquivalentCopy host one.2.info two.2.info

/-- Null versions of different times, or an equivalent copy. Of null versions of different times
the older one is dropped without a comparison. -/
def Accepts (host : InfoHost) (occupant newcomer : VersionIdentity × VersionCopy) : Prop :=
  (newcomer.1.1 = none ∧ newcomer.2.info.modTime ≠ occupant.2.info.modTime) ∨
    DataMovement.isEquivalentCopy host newcomer.2.info occupant.2.info = true

/-- Two copies of one version accept each other, whichever is first. The comparison of the source
is not symmetric, so both directions are asked for. -/
def Reconcilable (host : InfoHost) (one two : VersionIdentity × VersionCopy) : Prop :=
  one.1 = two.1 → Accepts host one two ∧ Accepts host two one

/-- The copy that the slot of its identity ends with, if no conflict comes before: no copy of the
identity is preferred to it. -/
def IsBest (copies : VersionSlots) (item : VersionIdentity × VersionCopy) : Prop :=
  item ∈ copies ∧ ∀ other, (item.1, other) ∈ copies → Prefers item.1 item.2 other

/-- Any two copies of a version are reconcilable, and its best copies are the same. -/
structure Agreeing (host : InfoHost) (copies : VersionSlots) : Prop where
  reconcilable : copies.Pairwise (Reconcilable host)
  best : ∀ one two, IsBest copies one → IsBest copies two → one.1 = two.1 →
    one.2.version = two.2.version

/-- A copy of the version that no other copy takes the slot from by its time: any copy, or the
newest of a null version. -/
def Foremost (copies : VersionSlots) (identity : VersionIdentity)
    (item : VersionIdentity × VersionCopy) : Prop :=
  item.1 = identity ∧
    (identity.1 = none → ∀ other ∈ copies, other.1 = identity → other.2.time ≤ item.2.time)

instance (copies : VersionSlots) (identity : VersionIdentity) :
    DecidablePred (Foremost copies identity) := fun item =>
  inferInstanceAs (Decidable (item.1 = identity ∧
    (identity.1 = none → ∀ other ∈ copies, other.1 = identity → other.2.time ≤ item.2.time)))

/-- The foremost copies of some version fall into two parts, and no copy of one part accepts a
copy of the other. No replacement can hide that. -/
def Conflicting (host : InfoHost) (copies : VersionSlots) : Prop :=
  ∃ identity, Slots.Torn (Accepts host) (copies.filter (Foremost copies identity ·))

/-- Either every order fails, on an entry that is not readable or on a conflict that every order
meets; or the copies agree. -/
def SettlesAlike (host : InfoHost) (name : String) (entries : List MetaCacheEntry) : Prop :=
  (∀ walk, ¬ Readable (host.withWalk walk) name entries ∨
      Conflicting (host.withWalk walk) (copiesOf (host.withWalk walk) name entries)) ∨
    (Steady host name entries ∧ Agreeing host (copiesOf host name entries))

section Settle

variable {host : InfoHost} {name : String} {entries order : List MetaCacheEntry}

theorem settle_some_iff (identity : VersionIdentity) (occupant newcomer : VersionCopy) :
    (settle host identity newcomer occupant).isSome ↔
      Accepts host (identity, occupant) (identity, newcomer) := by
  unfold settle Accepts
  split
  · rename_i differ
    rw [Bool.and_eq_true, Option.isNone_iff_eq_none, decide_eq_true_eq] at differ
    exact iff_of_true rfl (.inl differ)
  · rename_i same
    rw [Bool.and_eq_true, Option.isNone_iff_eq_none, decide_eq_true_eq] at same
    split
    · rename_i different
      rw [Bool.not_eq_true'] at different
      refine iff_of_false (by simp) ?_
      rintro (differ | equivalent)
      · exact same differ
      · exact Bool.false_ne_true (different.symm.trans equivalent)
    · rename_i equivalent
      rw [Bool.not_eq_true, Bool.not_eq_false'] at equivalent
      exact iff_of_true rfl (.inr equivalent)

theorem reconcilable_symm (one two : VersionIdentity × VersionCopy)
    (reconcilable : Reconcilable host one two) : Reconcilable host two one :=
  fun same => (reconcilable same.symm).symm

theorem reconcilable_accepted {one two : VersionIdentity × VersionCopy}
    (reconcilable : Reconcilable host one two) : Slots.Accepted (settle host) one two := by
  intro same
  obtain ⟨identity, occupant⟩ := one
  obtain ⟨_, newcomer⟩ := two
  cases same
  exact (settle_some_iff identity occupant newcomer).2 (reconcilable rfl).1

theorem foremost_perm {copies others : VersionSlots} (same : copies.Perm others)
    (identity : VersionIdentity) (item : VersionIdentity × VersionCopy) :
    Foremost copies identity item ↔ Foremost others identity item := by
  unfold Foremost
  simp only [same.mem_iff]

theorem conflicting_perm {copies others : VersionSlots} (same : copies.Perm others)
    (conflicting : Conflicting host copies) : Conflicting host others := by
  obtain ⟨identity, torn⟩ := conflicting
  refine ⟨identity, torn.of_perm ?_⟩
  simp only [foremost_perm same]
  exact same.filter _

theorem prefers_time {identity : VersionIdentity} {best other : VersionCopy}
    (preferred : Prefers identity best other) (null : identity.1 = none) : other.time ≤ best.time := by
  rcases preferred with ⟨_, newer⟩ | ⟨same, _⟩
  · exact newer.le
  · exact (same null).ge

theorem conflicting_fails {copies : VersionSlots} (conflicting : Conflicting host copies) :
    Slots.placeAll (settle host) [] copies = none := by
  rw [Option.eq_none_iff_forall_ne_some]
  intro slots placed
  obtain ⟨identity, left, right, split, leftNonempty, rightNonempty, apart⟩ := conflicting
  have keyed : ∀ item ∈ left ++ right, item.1 = identity := by
    intro item member
    exact (of_decide_eq_true (mem_filter.1 (split.mem_iff.2 member)).2).1
  have refuses : ∀ one two : VersionIdentity × VersionCopy, one.1 = identity → two.1 = identity →
      ¬ Accepts host one two → ¬ Slots.Accepted (settle host) one two := by
    rintro ⟨_, occupant⟩ ⟨_, newcomer⟩ rfl same refused accepted
    cases same
    exact refused ((settle_some_iff _ occupant newcomer).1 (accepted rfl))
  refine Slots.place_all_whole (settle_fair host) (fun item picked => (of_decide_eq_true picked).1) ?_
    placed ⟨left, right, split, leftNonempty, rightNonempty, ?_⟩
  · intro one two picked isOne preferred
    have newest := (of_decide_eq_true picked).2
    refine decide_eq_true ⟨isOne, fun null other member same => ?_⟩
    exact (newest null other member same).trans (prefers_time preferred null)
  · intro one inLeft two inRight
    have isOne := keyed one (mem_append_left _ inLeft)
    have isTwo := keyed two (mem_append_right _ inRight)
    exact ⟨refuses one two isOne isTwo (apart one inLeft two inRight).1,
      refuses two one isTwo isOne (apart one inLeft two inRight).2⟩

section

variable (steady : Steady host name entries) (walk : Walk)

include steady walk

theorem steady_copies (same : order.Perm entries) :
    copiesOf (host.withWalk walk) name order = copiesOf host name order := by
  unfold copiesOf
  rw [flatMap_congr]
  intro entry member
  rw [steady.reads walk entry (same.mem_iff.1 member)]

theorem steady_readable (same : order.Perm entries) :
    Readable (host.withWalk walk) name order ↔ Readable host name entries := by
  constructor
  · intro readable entry member
    rw [← steady.reads walk entry member]
    exact readable entry (same.mem_iff.2 member)
  · intro readable entry member
    rw [steady.reads walk entry (same.mem_iff.1 member)]
    exact readable entry (same.mem_iff.1 member)

theorem steady_reconcilable (pairwise : (copiesOf host name entries).Pairwise (Reconcilable host)) :
    (copiesOf host name entries).Pairwise (Reconcilable (host.withWalk walk)) := by
  apply pairwise.imp_of_mem
  intro one two isOne isTwo reconcilable same
  obtain ⟨forth, back⟩ := reconcilable same
  unfold Accepts
  rw [steady.settles walk one isOne two isTwo, steady.settles walk two isTwo one isOne]
  exact ⟨forth, back⟩

theorem reconcilable_slots (same : order.Perm entries) (readable : Readable host name entries)
    (pairwise : (copiesOf host name entries).Pairwise (Reconcilable host)) :
    ∃ slots, order.foldlM (mergeEntry (host.withWalk walk) name) [] = some slots ∧
      Slots.Held Prefers (copiesOf host name order) slots := by
  have orderReadable := (steady_readable steady walk same).2 readable
  have reconcilable : (copiesOf host name order).Pairwise (Reconcilable (host.withWalk walk)) :=
    (copies_of_perm same).symm.pairwise (steady_reconcilable steady walk pairwise)
      (fun reconcilable => reconcilable_symm _ _ reconcilable)
  obtain ⟨slots, placed⟩ := Slots.place_all_some (settle_fair (host.withWalk walk)) _ Slots.held_nil
    (reconcilable.imp fun reconcilable => reconcilable_accepted reconcilable)
  refine ⟨slots, ?_, ?_⟩
  · rw [merge_entries_readable [] orderReadable, steady_copies steady walk same]
    exact placed
  · exact Slots.held_place_all (settle_fair (host.withWalk walk)) _ Slots.held_nil placed

end

end Settle

section Sorted

variable {host other : InfoHost} {name : String} {entries : List MetaCacheEntry}
  {slots others : VersionSlots}

theorem consistent_from_perm {V : Type} [DecidableEq V] (isEmpty : V → Bool) (suffix : String)
    {entries others : List (String × V)} (same : entries.Perm others) :
    ∀ value, consistentFrom isEmpty suffix value entries =
      consistentFrom isEmpty suffix value others := by
  induction same with
  | nil => exact fun _ => rfl
  | cons entry _ ih =>
    intro value
    unfold consistentFrom
    rw [ih, ih]
  | swap one two rest =>
    intro value
    simp only [consistentFrom]
    grind
  | trans _ _ first second => exact fun value => (first value).trans (second value)

theorem get_consistent_str_walk (walk : Walk) (map : Metadata) (suffix : String) :
    getConsistentStr (host.withWalk walk).toPlatform map suffix =
      getConsistentStr host.toPlatform map suffix :=
  consistent_from_perm _ _ ((walk.perm _).trans (host.walk.perm _).symm) none

theorem retained_walk (walk : Walk) : retained (host.withWalk walk) slots = retained host slots := by
  unfold retained isSuperseded DataMovement.freeVersionRemoteTupleMatches
    DataMovement.tierDestinationId DataMovement.legacyTransitionVersionStateMissing
  simp only [get_consistent_str_walk]

theorem retained_perm (same : slots.Perm others) : (retained host slots).Perm (retained host others) := by
  have superseded : isSuperseded host slots = isSuperseded host others := by
    funext info
    unfold isSuperseded
    rw [same.any_eq]
  unfold retained
  rw [superseded]
  exact same.filter _

theorem identity_of_sort_key {left right : FileMetaVersionHeader}
    (notBefore : left.sortsBefore right = false) (notAfter : right.sortsBefore left = false) :
    identityOf left = identityOf right := by
  rw [← Bool.not_eq_true, sorts_before_iff, not_lt] at notBefore notAfter
  have same := le_antisymm notAfter notBefore
  unfold FileMetaVersionHeader.sortKey at same
  simp only [EmbeddingLike.apply_eq_iff_eq, Prod.mk.injEq] at same
  obtain ⟨_, _, _, ids, flags⟩ := same
  have flags : left.flags = right.flags := UInt8.toNat_inj.1 flags
  unfold identityOf FileMetaVersionHeader.freeVersion
  rw [id_key_injective ids, flags]

theorem sorted_versions_pairwise (host : InfoHost) (slots : VersionSlots) :
    (sortedVersions host slots).Pairwise fun left right =>
      (!right.header.sortsBefore left.header) = true := by
  apply pairwise_mergeSort
  · intro first second third notAfter notAfterStill
    rw [Bool.not_eq_true', ← Bool.not_eq_true, sorts_before_iff, not_lt] at *
    exact notAfter.trans notAfterStill
  · intro left right
    rw [Bool.or_eq_true, Bool.not_eq_true', Bool.not_eq_true', ← Bool.not_eq_true,
      ← Bool.not_eq_true, sorts_before_iff, sorts_before_iff, not_lt, not_lt]
    exact le_total _ _

theorem sorted_versions_unique (same : slots.Perm others)
    (own : ∀ slot ∈ slots, slot.1 = identityOf slot.2.version.header)
    (distinct : slots.Pairwise fun left right => left.1 ≠ right.1) :
    sortedVersions host slots = sortedVersions other others := by
  have left : (sortedVersions host slots).Perm (slots.map fun slot => slot.2.version) :=
    (mergeSort_perm _ _).trans ((host.walk.perm slots).map _)
  have right : (sortedVersions other others).Perm (slots.map fun slot => slot.2.version) :=
    (mergeSort_perm _ _).trans (((other.walk.perm others).trans same.symm).map _)
  have symmetric : Std.Symm fun (left right : VersionIdentity × VersionCopy) => left.1 ≠ right.1 :=
    ⟨fun _ _ apart => apart.symm⟩
  apply List.Perm.eq_of_pairwise _ (sorted_versions_pairwise host slots)
    (sorted_versions_pairwise other others) (left.trans right.symm)
  intro one two isOne isTwo notAfter notBefore
  obtain ⟨slot, inSlots, rfl⟩ := mem_map.1 (left.mem_iff.1 isOne)
  obtain ⟨twin, isTwin, rfl⟩ := mem_map.1 (right.mem_iff.1 isTwo)
  rw [Bool.not_eq_true'] at notAfter notBefore
  have identity : slot.1 = twin.1 := by
    rw [own slot inSlots, own twin isTwin]
    exact identity_of_sort_key notBefore notAfter
  by_contra different
  exact distinct.forall inSlots isTwin (fun equal => different (by rw [equal])) identity

end Sorted

section Independence

variable {host : InfoHost} {name : String} {entries order : List MetaCacheEntry}
  {slots others : VersionSlots}

theorem conflicting_merge_fails
    (fails : ¬ Readable host name entries ∨ Conflicting host (copiesOf host name entries))
    (same : order.Perm entries) : mergedVersions host name order = none := by
  have readsAlike : Readable host name order ↔ Readable host name entries := by
    unfold Readable
    simp only [same.mem_iff]
  unfold mergedVersions
  rw [Option.map_eq_none_iff]
  by_cases readable : Readable host name order
  · have conflicting := fails.resolve_left (not_not_intro (readsAlike.1 readable))
    rw [merge_entries_readable [] readable]
    exact conflicting_fails (conflicting_perm (copies_of_perm same).symm conflicting)
  · unfold Readable at readable
    push Not at readable
    obtain ⟨entry, member, unread⟩ := readable
    exact merge_entries_unreadable [] ⟨entry, member, by simpa using unread⟩

theorem item_of_version {one two : VersionIdentity × VersionCopy}
    (isOne : one ∈ copiesOf host name entries) (isTwo : two ∈ copiesOf host name entries)
    (sameVersion : one.2.version = two.2.version) : one = two := by
  obtain ⟨_, _, _, _, _, readOne⟩ := mem_copies_of isOne
  obtain ⟨_, _, _, _, _, readTwo⟩ := mem_copies_of isTwo
  rw [sameVersion, readTwo] at readOne
  exact (Option.some.inj readOne).symm

theorem held_slots_perm (agreeing : Agreeing host (copiesOf host name entries))
    (held : Slots.Held Prefers (copiesOf host name entries) slots)
    (otherHeld : Slots.Held Prefers (copiesOf host name order) others) (same : order.Perm entries) :
    slots.Perm others := by
  apply Slots.held_unique held otherHeld fun item => (copies_of_perm same).mem_iff.symm
  intro identity first second isFirst isSecond preferred
  have version := agreeing.best (identity, first) (identity, second)
    ⟨isFirst, fun other isOther => (preferred other isOther).1⟩
    ⟨isSecond, fun other isOther => (preferred other isOther).2⟩ rfl
  exact congrArg Prod.snd (item_of_version isFirst isSecond version)

theorem agreeing_merged (steady : Steady host name entries) (readable : Readable host name entries)
    (agreeing : Agreeing host (copiesOf host name entries)) (walk : Walk) (same : order.Perm entries) :
    mergedVersions (host.withWalk walk) name order = mergedVersions host name entries := by
  obtain ⟨slots, merged, held⟩ := reconcilable_slots steady walk same readable agreeing.reconcilable
  obtain ⟨others, otherMerged, otherHeld⟩ :=
    reconcilable_slots steady host.walk (List.Perm.refl entries) readable agreeing.reconcilable
  change entries.foldlM (mergeEntry host name) [] = some others at otherMerged
  have perm := held_slots_perm agreeing otherHeld held same
  have within : ∀ slot ∈ slots, slot ∈ copiesOf host name entries := fun slot member =>
    (copies_of_perm same).mem_iff.1 (held.within slot member)
  unfold mergedVersions
  rw [merged, otherMerged, Option.map_some, Option.map_some, retained_walk]
  congr 1
  apply sorted_versions_unique (retained_perm perm.symm)
  · intro slot member
    obtain ⟨_, _, _, _, _, read⟩ := mem_copies_of (within slot (mem_of_mem_filter member))
    exact (read_copy_cases read).1
  · exact held.distinct.filter _

theorem settled_order_independent (alike : SettlesAlike host name entries) :
    OrderIndependent host name entries := by
  intro walk otherWalk order otherOrder same otherSame
  rcases alike with fails | ⟨steady, agreeing⟩
  · rw [conflicting_merge_fails (fails walk) same, conflicting_merge_fails (fails otherWalk) otherSame]
  · by_cases readable : Readable host name entries
    · rw [agreeing_merged steady readable agreeing walk same,
        agreeing_merged steady readable agreeing otherWalk otherSame]
    · have unreadable : ∀ walk, ¬ Readable (host.withWalk walk) name entries := fun walk again =>
        readable ((steady_readable steady walk (List.Perm.refl entries)).1 again)
      rw [conflicting_merge_fails (.inl (unreadable walk)) same,
        conflicting_merge_fails (.inl (unreadable otherWalk)) otherSame]

end Independence

section Converse

variable {host : InfoHost} {name : String} {entries rest : List MetaCacheEntry}
  {first second : MetaCacheEntry}

/-- The versions of an entry are different ones. -/
def Distinct (items : VersionSlots) : Prop := items.Pairwise fun left right => left.1 ≠ right.1

theorem distinct_placed {items slots : VersionSlots} (distinct : Distinct items)
    (placed : Slots.placeAll (settle host) [] items = some slots) :
    ∀ item ∈ items, item ∈ slots := by
  have held := Slots.held_place_all (settle_fair host) items Slots.held_nil placed
  have symmetric : Std.Symm fun (left right : VersionIdentity × VersionCopy) => left.1 ≠ right.1 :=
    ⟨fun _ _ apart => apart.symm⟩
  intro item member
  obtain ⟨slot, inSlots, isKey, _⟩ := held.covers item member
  have same : slot = item := by
    by_contra different
    exact distinct.forall (held.within slot inSlots) member different isKey
  rw [← same]
  exact inSlots

theorem merged_accepts (succeeds : (mergedVersions host name (first :: second :: rest)).isSome)
    (firstDistinct : Distinct (copiesOf host name [first]))
    (secondDistinct : Distinct (copiesOf host name [second])) :
    ∀ one ∈ copiesOf host name [first], ∀ two ∈ copiesOf host name [second], one.1 = two.1 →
      Accepts host one two := by
  unfold mergedVersions at succeeds
  rw [Option.isSome_map] at succeeds
  obtain ⟨slots, merged⟩ := Option.isSome_iff_exists.1 succeeds
  have readable := (merged_slots_held merged).1
  rw [merge_entries_readable [] readable] at merged
  have split : copiesOf host name (first :: second :: rest) =
      copiesOf host name [first] ++ (copiesOf host name [second] ++ copiesOf host name rest) := by
    simp [copiesOf]
  rw [split, Slots.placeAll, foldlM_append] at merged
  obtain ⟨firstSlots, firstPlaced, merged⟩ := Option.bind_eq_some_iff.1 merged
  rw [foldlM_append] at merged
  obtain ⟨secondSlots, secondPlaced, _⟩ := Option.bind_eq_some_iff.1 merged
  have held := Slots.held_place_all (settle_fair host) _ Slots.held_nil firstPlaced
  rintro ⟨identity, occupant⟩ isOne ⟨_, newcomer⟩ isTwo ⟨⟩
  have accepted := Slots.accepted_of_place_all _ secondDistinct held.distinct secondPlaced
    (identity, occupant) (distinct_placed firstDistinct firstPlaced _ isOne) (identity, newcomer) isTwo
    rfl
  exact (settle_some_iff identity occupant newcomer).1 accepted

theorem independent_succeeds (independent : OrderIndependent host name entries)
    (succeeds : (mergedVersions host name entries).isSome) {order : List MetaCacheEntry}
    (same : order.Perm entries) : (mergedVersions host name order).isSome := by
  have equal : mergedVersions host name order = mergedVersions host name entries :=
    independent host.walk host.walk order entries same (List.Perm.refl _)
  rw [equal]
  exact succeeds

end Converse

def InfoHost.sample : InfoHost where
  toRuntime := .sample
  parseExpires _ := none
  parseI64 _ := none
  uuidToString _ := ""

def nullMarker (seconds : Nat) (metaSys : SysMetadata) : FileMetaVersion :=
  .ofMarker ⟨none, OffsetDateTime.fromUnixTimestampNanos ((1700000000 + seconds) * 1000000000), metaSys⟩

def nullMarkerMeta (seconds : Nat) (metaSys : SysMetadata) : FileMeta :=
  { FileMeta.default with versions := [(nullMarker seconds metaSys).toShallow .sample] }

def nullMarkerEntry (seconds : Nat) (metaSys : SysMetadata) : MetaCacheEntry where
  name := "report.csv"
  metadata := (nullMarkerMeta seconds metaSys).marshalMsg InfoHost.sample.hash
  cached := some (nullMarkerMeta seconds metaSys)
  reusable := true

def plainEntry (seconds : Nat) : MetaCacheEntry := nullMarkerEntry seconds .empty

/-- The same marker with a flag for the tier. -/
def flaggedEntry (seconds : Nat) : MetaCacheEntry :=
  nullMarkerEntry seconds (KeyMap.empty.insert (rustfsKey suffixTierSkipFvId) [116, 114, 117, 101])

theorem enumerate_nil (walk : Walk) {K V : Type} : walk.enumerate ([] : List (K × V)) = [] :=
  perm_nil.1 (walk.perm [])

theorem plain_state_walk (host : InfoHost) (walk : Walk) :
    getInternalReplicationState (host.withWalk walk).toRuntime .empty =
      getInternalReplicationState host.toRuntime .empty := by
  unfold getInternalReplicationState
  rw [show (KeyMap.empty : Metadata).entries = [] from rfl, enumerate_nil, enumerate_nil,
    target_delete_marker_versions_walk (host.withWalk walk).toPlatform host.toPlatform]
  rfl

theorem plain_marker_read (host : InfoHost) (walk : Walk) (name : String)
    {version : FileMetaShallowVersion} {id : Option Uuid} {time : Option OffsetDateTime}
    (parsed : version.parseVersionMeta host.toRuntime = .ok (.ofMarker ⟨id, time, .empty⟩)) :
    readCopy (host.withWalk walk) name version = readCopy host name version := by
  have again : version.parseVersionMeta (host.withWalk walk).toRuntime =
      .ok (.ofMarker ⟨id, time, .empty⟩) := parsed
  have plain : (mk id time .empty).plainFileInfo (host.withWalk walk).toRuntime "" name =
      (mk id time .empty).plainFileInfo host.toRuntime "" name := by
    unfold plainFileInfo
    rw [show ∀ env, (mk id time .empty).lossyMetadata env = .empty from fun _ => rfl,
      show ∀ env, (mk id time .empty).lossyMetadata env = .empty from fun _ => rfl,
      plain_state_walk]
  have same : (FileMetaVersion.ofMarker ⟨id, time, .empty⟩).intoFileinfo
      (host.withWalk walk).toRuntime "" name true =
      (FileMetaVersion.ofMarker ⟨id, time, .empty⟩).intoFileinfo host.toRuntime "" name true := by
    unfold FileMetaVersion.intoFileinfo FileMetaVersion.toFileinfo FileMetaVersion.bodyFileInfo
    dsimp only [FileMetaVersion.ofMarker, Option.getD_some]
    have notFree : (mk id time .empty).freeVersion = false := rfl
    rw [intoFileinfo, intoFileinfo, plain, notFree]
    rfl
  unfold readCopy
  rw [parsed, again]
  dsimp only
  rw [same]
  rfl

instance (host : InfoHost) : DecidableRel (Reconcilable host) := fun one two =>
  inferInstanceAs (Decidable (one.1 = two.1 →
    ((two.1.1 = none ∧ two.2.info.modTime ≠ one.2.info.modTime) ∨
      DataMovement.isEquivalentCopy host two.2.info one.2.info = true) ∧
    ((one.1.1 = none ∧ one.2.info.modTime ≠ two.2.info.modTime) ∨
      DataMovement.isEquivalentCopy host one.2.info two.2.info = true)))

theorem plain_entries_steady : Steady .sample "report.csv" [plainEntry 0, plainEntry 1] where
  reads := by
    intro walk entry member
    have plain : ∀ seconds ∈ [0, 1], ((nullMarker seconds .empty).toShallow .sample).parseVersionMeta
        .sample = .ok (nullMarker seconds .empty) := by decide
    simp only [mem_cons, not_mem_nil, or_false] at member
    rcases member with rfl | rfl
    · change [_].mapM _ = [_].mapM _
      rw [mapM_cons, mapM_cons, plain_marker_read .sample walk _ (plain 0 (by simp))]
      rfl
    · change [_].mapM _ = [_].mapM _
      rw [mapM_cons, mapM_cons, plain_marker_read .sample walk _ (plain 1 (by simp))]
      rfl
  settles := by
    intro walk one isOne two isTwo
    have plain : ∀ item ∈ copiesOf .sample "report.csv" [plainEntry 0, plainEntry 1],
        item.2.info.deleteMarker = true ∧ item.2.info.userDefined = .empty := by decide
    obtain ⟨oneDeleted, oneEmpty⟩ := plain one isOne
    obtain ⟨twoDeleted, twoEmpty⟩ := plain two isTwo
    unfold DataMovement.isEquivalentCopy DataMovement.isEquivalentDeleteMarker
      DataMovement.markerMetadataIdentity
    rw [oneDeleted, twoDeleted, oneEmpty, twoEmpty]
    rw [show (KeyMap.empty : Metadata).entries = [] from rfl, enumerate_nil, enumerate_nil]
    rfl

theorem plain_entries_agreeing :
    Agreeing .sample (copiesOf .sample "report.csv" [plainEntry 0, plainEntry 1]) where
  reconcilable := by decide
  best := by
    intro one two isOne isTwo same
    have bytes : ∀ left ∈ copiesOf .sample "report.csv" [plainEntry 0, plainEntry 1],
        ∀ right ∈ copiesOf .sample "report.csv" [plainEntry 0, plainEntry 1],
        left.2.version.metaBytes = right.2.version.metaBytes → left.2.version = right.2.version := by
      decide +kernel
    apply bytes one isOne.1 two isTwo.1
    obtain ⟨identity, one⟩ := one
    obtain ⟨_, two⟩ := two
    cases same
    exact prefers_both (isOne.2 two isTwo.1) (isTwo.2 one isOne.1)

end Rustfs.Ecstore
