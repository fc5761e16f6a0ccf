import Rustfs.Ecstore.VersionUnion
import Rustfs.Library.SortedMerge
import Rustfs.Utils.StrSearch
import Mathlib.Data.List.Sort
import Mathlib.Data.Prod.Lex

/-!
# The merge of listing channels

`merge_entry_channels` of `ecstore/src/store/list_objects.rs` with `MergeHead`: producers send their
entries into the channels at any time, the merge receives the heads of the channels, and sends one
entry for each name. The capacity of the channels is left out: a producer may send at any time,
which allows more runs and no fewer.
-/

namespace Rustfs.Ecstore

open List Option Bool Filemeta Library Library.Lists Library.SortedMerge Utils MetaCacheEntry

structure MergeHead where
  entry : MetaCacheEntry
  idx : Nat
  deriving DecidableEq

namespace MergeHead

/-- The name is cleaned at intake, but keeps one slash at its end. -/
def new (entry : MetaCacheEntry) (idx : Nat) : MergeHead :=
  let cleaned := clean entry.name
  if !cleaned.isEmpty && cleaned ≠ "." && cleaned ≠ entry.name then
    let canonical := if entry.name.toList.getLast? = some '/' then cleaned ++ "/" else cleaned
    ⟨{ entry with name := canonical }, idx⟩
  else ⟨entry, idx⟩

/-- Heads are in the order of their names, and of their channels for one name. -/
def sortKey (head : MergeHead) : String ×ₗ Nat := toLex (head.entry.name, head.idx)

end MergeHead

def pushHead (heap : List MergeHead) (head : MergeHead) : List MergeHead :=
  heap.orderedInsert (fun one two => one.sortKey ≤ two.sortKey) head

structure Winners where
  dirWinner : Option MetaCacheEntry
  objectWinner : Option MetaCacheEntry
  objectEntries : List MetaCacheEntry

def Winners.take (winners : Winners) (entry : MetaCacheEntry) : Winners :=
  if entry.isDir then { winners with dirWinner := winners.dirWinner.or (some entry) }
  else
    match winners.objectWinner with
    | none => { winners with objectWinner := some entry }
    | some winner =>
      if !entry.isObject then winners
      else if winner.isObject then
        { winners with objectEntries := winners.objectEntries ++ [entry] }
      else { winners with objectWinner := some entry }

/-- The entry that stands for the group, or none when the versions cannot be merged. -/
def resolveGroup (host : InfoHost) (group : List MetaCacheEntry) : Option (Option MetaCacheEntry) :=
  let winners := group.foldl Winners.take ⟨none, none, []⟩
  match winners.objectWinner with
  | none => some winners.dirWinner
  | some winner =>
    if winners.objectEntries.isEmpty then some (some winner)
    else (mergeObjectEntryVersions host winner winners.objectEntries).map some

structure MergeChannel where
  unsent : List MetaCacheEntry
  queue : List MetaCacheEntry
  closed : Bool
  deriving DecidableEq

inductive MergeEnd
  | finished
  | failed
  /-- Cancelled, or nobody receives what is sent. -/
  | stopped
  deriving DecidableEq

structure MergeState where
  channels : List MergeChannel
  heap : List MergeHead
  /-- The channels whose next head is waited for. -/
  polls : List Nat
  lastEmitted : String
  emitted : List MetaCacheEntry
  ended : Option MergeEnd
  deriving DecidableEq

inductive MergeAction
  | send (idx : Nat)
  | close (idx : Nat)
  | poll
  | emit
  | stop
  deriving DecidableEq

namespace MergeState

def start (inputs : List (List MetaCacheEntry)) : MergeState where
  channels := inputs.map fun input => ⟨input, [], false⟩
  heap := []
  polls := List.range inputs.length
  lastEmitted := ""
  emitted := []
  ended := if inputs.isEmpty then some .finished else none

def send (state : MergeState) (idx : Nat) : Option MergeState :=
  match state.channels[idx]? with
  | some ⟨entry :: unsent, queue, closed⟩ =>
    some { state with channels := state.channels.set idx ⟨unsent, queue ++ [entry], closed⟩ }
  | _ => none

/-- A producer that has sent everything drops its sender. -/
def close (state : MergeState) (idx : Nat) : Option MergeState :=
  match state.channels[idx]? with
  | some ⟨[], queue, _⟩ => some { state with channels := state.channels.set idx ⟨[], queue, true⟩ }
  | _ => none

/-- `poll_merge_head` on the first channel that is waited for. The entries of a single channel
are sent on as they are. -/
def poll (state : MergeState) : Option MergeState :=
  match state.polls with
  | [] => none
  | idx :: polls =>
    match state.channels[idx]? with
    | some ⟨unsent, entry :: queue, closed⟩ =>
      let received := { state with channels := state.channels.set idx ⟨unsent, queue, closed⟩ }
      if state.channels.length = 1 then
        some { received with emitted := state.emitted ++ [entry] }
      else some { received with heap := pushHead state.heap (.new entry idx), polls := polls }
    | some ⟨_, [], true⟩ =>
      if state.channels.length = 1 then some { state with ended := some .finished }
      else some { state with polls := polls }
    | _ => none

/-- The heads of the least name are taken from the heap and resolved to one entry. -/
def emit (host : InfoHost) (state : MergeState) : Option MergeState :=
  if !state.polls.isEmpty then none
  else
    match state.heap with
    | [] => some { state with ended := some .finished }
    | first :: rest =>
      let group := first :: rest.takeWhile fun next => next.entry.name = first.entry.name
      let taken := { state with
        heap := rest.dropWhile fun next => next.entry.name = first.entry.name
        polls := group.map MergeHead.idx }
      match resolveGroup host (group.map MergeHead.entry) with
      | none => some { state with ended := some .failed }
      | some none => some taken
      | some (some winner) =>
        if winner.name = state.lastEmitted then some taken
        else some { taken with
          lastEmitted := winner.name
          emitted := state.emitted ++ [winner] }

def step (host : InfoHost) (state : MergeState) : MergeAction → Option MergeState
  | .send idx => state.send idx
  | .close idx => state.close idx
  | .poll => if state.ended.isSome then none else state.poll
  | .emit => if state.ended.isSome then none else state.emit host
  | .stop => if state.ended.isSome then none else some { state with ended := some .stopped }

end MergeState

/-- `merge_entry_channels`, in some order of the producers' and its own actions. -/
def mergeEntryChannels (host : InfoHost) (inputs : List (List MetaCacheEntry))
    (actions : List MergeAction) : Option MergeState :=
  actions.foldlM (MergeState.step host) (.start inputs)

variable {result : Option MetaCacheEntry}

section Resolve

variable {host : InfoHost} {group : List MetaCacheEntry}

theorem not_object_of_dir {entry : MetaCacheEntry} (isDir : entry.isDir = true) :
    entry.isObject = false := by
  unfold isObject
  rw [(and_eq_true_iff.1 isDir).1]
  rfl

/-- The first directory, the first object or else the first entry that is no directory, and the
objects behind the first. -/
def winnersOf (seen : List MetaCacheEntry) : Winners where
  dirWinner := seen.find? MetaCacheEntry.isDir
  objectWinner := (seen.find? MetaCacheEntry.isObject).or (seen.find? fun entry => !entry.isDir)
  objectEntries := (seen.filter MetaCacheEntry.isObject).tail

theorem winners_of_take (seen : List MetaCacheEntry) (entry : MetaCacheEntry) :
    (winnersOf seen).take entry = winnersOf (seen ++ [entry]) := by
  unfold Winners.take winnersOf
  simp only [find?_append, find?_singleton, filter_append, filter_singleton]
  cases isDir : entry.isDir with
  | true => simp [not_object_of_dir isDir]
  | false =>
    cases found : seen.find? isObject with
    | some first =>
      have isFirst : first.isObject = true := find?_some found
      have filled : seen.filter isObject ≠ [] :=
        ne_nil_of_mem (mem_filter.2 ⟨mem_of_find?_eq_some found, isFirst⟩)
      cases isObject : entry.isObject with
      | true => simp [isFirst, tail_append_of_ne_nil filled]
      | false => simp
    | none =>
      have bare : seen.filter isObject = [] :=
        filter_eq_nil_iff.2 (find?_eq_none.1 found)
      cases other : seen.find? fun entry => !entry.isDir with
      | none => cases isObject : entry.isObject <;> simp [bare]
      | some winner =>
        have notObject := find?_eq_none.1 found winner (mem_of_find?_eq_some other)
        cases isObject : entry.isObject <;> simp [bare, notObject]

theorem winners_of_fold (group : List MetaCacheEntry) :
    ∀ seen : List MetaCacheEntry, group.foldl Winners.take (winnersOf seen) = winnersOf (seen ++ group) := by
  induction group with
  | nil =>
    intro seen
    rw [append_nil]
    rfl
  | cons entry rest ih =>
    intro seen
    rw [foldl_cons, winners_of_take, ih, append_assoc]
    rfl

/-- A group without objects is one of its entries, one object stands for itself, and several are
merged. -/
theorem resolve_group_cases (filled : group ≠ [])
    (resolved : resolveGroup host group = some result) :
    ∃ winner, result = some winner ∧
      ((group.filter MetaCacheEntry.isObject = [] ∧ winner ∈ group ∧ winner.isObject = false) ∨
        group.filter MetaCacheEntry.isObject = [winner] ∨
        ∃ first others, group.filter MetaCacheEntry.isObject = first :: others ∧ others ≠ [] ∧
          mergeObjectEntryVersions host first others = some winner) := by
  have folded : group.foldl Winners.take ⟨none, none, []⟩ = winnersOf group := winners_of_fold group []
  have firstObject : group.find? isObject = (group.filter isObject).head? :=
    head?_filter.symm
  unfold resolveGroup at resolved
  rw [folded] at resolved
  unfold winnersOf at resolved
  rw [firstObject] at resolved
  cases objects : group.filter isObject with
  | nil =>
    have bare : ∀ entry ∈ group, entry.isObject = false := by
      intro entry member
      rw [← not_eq_true]
      exact filter_eq_nil_iff.1 objects entry member
    rw [objects, head?_nil, none_or] at resolved
    cases isWinner : group.find? fun entry => !entry.isDir with
    | some winner =>
      rw [isWinner] at resolved
      cases resolved
      have member := mem_of_find?_eq_some isWinner
      exact ⟨winner, rfl, .inl ⟨rfl, member, bare winner member⟩⟩
    | none =>
      rw [isWinner] at resolved
      cases resolved
      obtain ⟨first, rest, rfl⟩ := exists_cons_of_ne_nil filled
      have isDir : first.isDir = true := by
        have notOther := find?_eq_none.1 isWinner first mem_cons_self
        simpa using notOther
      refine ⟨first, find?_cons_of_pos isDir, .inl ⟨rfl, mem_cons_self, ?_⟩⟩
      exact bare first mem_cons_self
  | cons first others =>
    rw [objects, head?_cons, some_or, tail_cons] at resolved
    cases others with
    | nil =>
      cases resolved
      exact ⟨first, rfl, .inr (.inl rfl)⟩
    | cons second more =>
      obtain ⟨winner, merged, rfl⟩ := map_eq_some_iff.1 resolved
      exact ⟨winner, rfl, .inr (.inr ⟨first, second :: more, rfl, by simp, merged⟩)⟩

end Resolve

def identitiesOf (host : InfoHost) (entry : MetaCacheEntry) : List VersionIdentity :=
  match entry.fileMeta host.hash with
  | .error _ => []
  | .ok xl => xl.versions.map fun version => identityOf version.header

/-- The objects that the channels carry under a name. -/
def objectsNamed (inputs : List (List MetaCacheEntry)) (name : String) : List MetaCacheEntry :=
  (inputs.filterMap (entryFor MetaCacheEntry.name name)).filter MetaCacheEntry.isObject

/-- The identities of an entry are those of the objects. Where several objects were merged, free
versions are left out whose remote object a live version owns. -/
def UnionOf (host : InfoHost) (objects : List MetaCacheEntry) (entry : MetaCacheEntry) : Prop :=
  if 2 ≤ objects.length then
    ∃ slots, Slots.Held Prefers (copiesOf host entry.name objects) slots ∧
      ∀ identity, identity ∈ identitiesOf host entry ↔
        (∃ object ∈ objects, identity ∈ identitiesOf host object) ∧
          ¬ ∃ slot ∈ slots, slot.1 = identity ∧ isSuperseded host slots slot.2.info = true
  else
    ∀ identity, identity ∈ identitiesOf host entry ↔
      ∃ object ∈ objects, identity ∈ identitiesOf host object

section Identities

variable {host : InfoHost} {name : String} {entries objects : List MetaCacheEntry}
  {slots : VersionSlots} {identity : VersionIdentity}

theorem copy_identities (readable : Readable host name entries) :
    (∃ item ∈ copiesOf host name entries, item.1 = identity) ↔
      ∃ entry ∈ entries, identity ∈ identitiesOf host entry := by
  constructor
  · rintro ⟨item, member, rfl⟩
    obtain ⟨entry, isEntry, xl, isMeta, isVersion, read⟩ := mem_copies_of member
    refine ⟨entry, isEntry, ?_⟩
    unfold identitiesOf
    rw [isMeta, (read_copy_cases read).1]
    exact mem_map.2 ⟨_, isVersion, rfl⟩
  · rintro ⟨entry, isEntry, member⟩
    obtain ⟨items, isItems⟩ := isSome_iff_exists.1 (readable entry isEntry)
    have within : ∀ item ∈ items, item ∈ copiesOf host name entries := by
      intro item isItem
      refine mem_flatMap.2 ⟨entry, isEntry, ?_⟩
      rw [isItems]
      exact isItem
    unfold identitiesOf at member
    unfold readEntry at isItems
    cases isMeta : entry.fileMeta host.hash with
    | error problem =>
      rw [isMeta] at isItems
      cases isItems
    | ok xl =>
      rw [isMeta] at isItems member
      dsimp only at isItems member
      split at isItems
      · cases isItems
      · obtain ⟨version, isVersion, rfl⟩ := mem_map.1 member
        obtain ⟨item, isItem, read⟩ := read_of_map_some isItems isVersion
        exact ⟨item, within item isItem, (read_copy_cases read).1⟩

theorem mem_sorted_versions {version : FileMetaShallowVersion} :
    version ∈ sortedVersions host slots ↔ ∃ slot ∈ slots, slot.2.version = version := by
  unfold sortedVersions
  rw [mem_mergeSort, ((host.walk.perm slots).map _).mem_iff, List.mem_map]

theorem retained_identity (held : Slots.Held Prefers (copiesOf host name entries) slots) :
    (∃ slot ∈ retained host slots, slot.1 = identity) ↔
      (∃ item ∈ copiesOf host name entries, item.1 = identity) ∧
        ¬ ∃ slot ∈ slots, slot.1 = identity ∧ isSuperseded host slots slot.2.info = true := by
  constructor
  · rintro ⟨slot, isRetained, rfl⟩
    obtain ⟨member, kept⟩ := mem_filter.1 isRetained
    refine ⟨⟨slot, held.within slot member, rfl⟩, ?_⟩
    rintro ⟨other, isOther, same, superseded⟩
    rw [held.slot_unique isOther member same] at superseded
    rw [superseded] at kept
    cases kept
  · rintro ⟨⟨item, member, rfl⟩, notSuperseded⟩
    obtain ⟨slot, isSlot, same, _⟩ := held.covers item member
    refine ⟨slot, mem_filter.2 ⟨isSlot, ?_⟩, same⟩
    rw [not_eq_true', ← not_eq_true]
    exact fun superseded => notSuperseded ⟨slot, isSlot, same, superseded⟩

theorem marshal_not_empty (hash : Hash) (fm : FileMeta) : fm.marshalMsg hash ≠ [] := by
  unfold FileMeta.marshalMsg
  simp

theorem merged_entry {first winner : MetaCacheEntry} {others : List MetaCacheEntry}
    (merged : mergeObjectEntryVersions host first others = some winner) :
    winner.name = first.name ∧ winner.isObject = true ∧
      ∃ slots, Slots.Held Prefers (copiesOf host first.name (first :: others)) slots ∧
        ∀ identity, identity ∈ identitiesOf host winner ↔
          (∃ object ∈ first :: others, identity ∈ identitiesOf host object) ∧
            ¬ ∃ slot ∈ slots, slot.1 = identity ∧ isSuperseded host slots slot.2.info = true := by
  obtain ⟨versions, isVersions, rfl⟩ := map_eq_some_iff.1 merged
  obtain ⟨slots, isSlots, rfl⟩ := map_eq_some_iff.1 isVersions
  obtain ⟨readable, held⟩ := merged_slots_held isSlots
  refine ⟨rfl, ?_, slots, held, ?_⟩
  · unfold isObject
    rw [not_eq_true', isEmpty_eq_false_iff]
    exact marshal_not_empty _ _
  · intro identity
    rw [← copy_identities readable, ← retained_identity held]
    change identity ∈ (sortedVersions host (retained host slots)).map _ ↔ _
    rw [List.mem_map]
    have own : ∀ slot ∈ retained host slots, identityOf slot.2.version.header = slot.1 := by
      intro slot isRetained
      obtain ⟨_, _, _, _, _, read⟩ := mem_copies_of (held.within slot (mem_of_mem_filter isRetained))
      exact (read_copy_cases read).1.symm
    constructor
    · rintro ⟨version, isVersion, rfl⟩
      obtain ⟨slot, isRetained, rfl⟩ := mem_sorted_versions.1 isVersion
      exact ⟨slot, isRetained, (own slot isRetained).symm⟩
    · rintro ⟨slot, isRetained, rfl⟩
      exact ⟨slot.2.version, mem_sorted_versions.2 ⟨slot, isRetained, rfl⟩, own slot isRetained⟩

structure Stands (host : InfoHost) (inputs : List (List MetaCacheEntry)) (entry : MetaCacheEntry) :
    Prop where
  object : objectsNamed inputs entry.name ≠ [] → entry.isObject = true
  union : entry.isObject = true → UnionOf host (objectsNamed inputs entry.name) entry

theorem resolved_stands {inputs : List (List MetaCacheEntry)} {group : List MetaCacheEntry}
    (filled : group ≠ []) (named : ∀ entry ∈ group, entry.name = name)
    (whole : group.Perm (inputs.filterMap (entryFor MetaCacheEntry.name name)))
    (resolved : resolveGroup host group = some result) :
    ∃ winner, result = some winner ∧ winner.name = name ∧ Stands host inputs winner := by
  have objects : (group.filter isObject).Perm (objectsNamed inputs name) :=
    whole.filter _
  have inGroup : ∀ {object : MetaCacheEntry}, object ∈ group.filter isObject →
      object.name = name ∧ object.isObject = true := fun member =>
    ⟨named _ (mem_filter.1 member).1, (mem_filter.1 member).2⟩
  obtain ⟨winner, rfl, ⟨bare, member, notObject⟩ | single | ⟨first, others, several, more, merged⟩⟩ :=
    resolve_group_cases filled resolved
  · have isName := named winner member
    refine ⟨winner, rfl, isName, ?_, ?_⟩
    · rw [isName]
      rw [bare] at objects
      exact absurd (nil_perm.1 objects)
    · intro isObject
      rw [notObject] at isObject
      cases isObject
  · have isWinner := inGroup (by rw [single]; exact mem_singleton_self winner)
    rw [single] at objects
    refine ⟨winner, rfl, isWinner.1, fun _ => isWinner.2, fun _ => ?_⟩
    rw [isWinner.1, ← singleton_perm.1 objects]
    intro identity
    simp
  · obtain ⟨sameName, isObject, slots, held, identities⟩ := merged_entry merged
    have firstName : first.name = name :=
      (inGroup (by rw [several]; exact mem_cons_self)).1
    rw [several] at objects
    refine ⟨winner, rfl, sameName.trans firstName, fun _ => isObject, fun _ => ?_⟩
    rw [sameName, firstName]
    unfold UnionOf
    have two : 2 ≤ (objectsNamed inputs name).length := by
      rw [← objects.length_eq, length_cons]
      have positive := length_pos_iff.2 more
      omega
    rw [if_pos two, sameName]
    refine ⟨slots, ?_, ?_⟩
    · exact held.of_same fun item => (copies_of_perm objects).mem_iff
    · intro identity
      rw [identities]
      simp only [objects.mem_iff]

end Identities

end Rustfs.Ecstore
