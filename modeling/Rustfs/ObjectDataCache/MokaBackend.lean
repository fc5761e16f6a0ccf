import Rustfs.Library.Runs
import Mathlib.Data.List.AList
import Mathlib.Logic.Function.Basic
import Mathlib.Algebra.Group.Nat.Even

/-!
# The identity index of the object data cache

`crates/object-data-cache/src/key.rs`, `index.rs` and `starshard_index.rs`. The
index holds, for each object, the keys its cached bodies were registered under,
each with the generation of the fill that registered it.

`crates/object-data-cache/src/moka_backend.rs`. Fills, invalidations, evictions
and clears run side by side over one cache, one identity index and one clear
fence. Each step here is one atomic operation on one of them: a read or a write
of the fence under its lock, an operation of the index, a get, a put, a removal
or a conditional computation of the cache. A `System` holds what is shared and
the position of every task, and an `Event` names the task that moves.

A cached entry is known by the generation of its fill; its bytes play no part. The
bytes, weights and memory gate of a fill enter through their refusals alone.
-/

namespace Rustfs.ObjectDataCache

open List

inductive BodyVariant
  | fullObjectPlainV1
  deriving DecidableEq

structure Identity where
  bucket : String
  object : String
  deriving DecidableEq

structure Key where
  bucket : String
  object : String
  versionId : String
  etag : String
  size : Nat
  dataDirU128 : Option Nat
  modTimeUnixNanos : Int
  bodyVariant : BodyVariant
  deriving DecidableEq

def Key.identity (key : Key) : Identity := ⟨key.bucket, key.object⟩

structure TrackedKey where
  key : Key
  generation : Nat
  deriving DecidableEq

inductive GenerationalInsertResult
  | inserted (evicted : List TrackedKey)
  | duplicate

def GenerationalInsertResult.evicted : GenerationalInsertResult → List TrackedKey
  | .inserted evicted => evicted
  | .duplicate => []

structure KeySet where
  keys : List TrackedKey
  deriving DecidableEq

namespace KeySet

/-- The registration of `key` under a new generation, in its old place. -/
def refresh (key : Key) (generation : Nat) : List TrackedKey → List TrackedKey
  | [] => []
  | existing :: rest =>
    if existing.key = key then { existing with generation } :: rest
    else existing :: refresh key generation rest

/-- What is left once the oldest keys have been removed, and the removed ones. -/
def evictOldest (maxKeys : Nat) : List TrackedKey → List TrackedKey × List TrackedKey
  | [] => ([], [])
  | oldest :: rest =>
    if maxKeys ≤ rest.length + 1 then
      ((evictOldest maxKeys rest).1, oldest :: (evictOldest maxKeys rest).2)
    else (oldest :: rest, [])

def insertGeneration (self : KeySet) (key : Key) (generation maxKeys : Nat) :
    KeySet × GenerationalInsertResult :=
  if self.keys.any fun existing => existing.key = key then
    (⟨refresh key generation self.keys⟩, .duplicate)
  else
    (⟨(evictOldest maxKeys self.keys).1 ++ [⟨key, generation⟩]⟩,
      .inserted (evictOldest maxKeys self.keys).2)

def removeGeneration (self : KeySet) (key : Key) (generation : Nat) : KeySet :=
  ⟨self.keys.filter fun existing => !(existing.key = key && existing.generation = generation)⟩

def retain (self : KeySet) (keep : Key → Bool) : KeySet :=
  ⟨self.keys.filter fun tracked => keep tracked.key⟩

def isEmpty (self : KeySet) : Bool := self.keys.isEmpty

def containsGeneration (self : KeySet) (key : Key) (generation : Nat) : Bool :=
  self.keys.any fun existing => existing.key = key && existing.generation = generation

def cloned (self : KeySet) : List Key := self.keys.map TrackedKey.key

variable {self : KeySet} {key : Key} {generation : Nat} {tracked : TrackedKey}
  {keys : List TrackedKey} {maxKeys : Nat}

@[simp]
theorem contains_generation_iff :
    self.containsGeneration key generation = true ↔ ⟨key, generation⟩ ∈ self.keys := by
  simp only [containsGeneration, any_eq_true, Bool.and_eq_true, decide_eq_true_eq]
  constructor
  · rintro ⟨existing, member, rfl, rfl⟩
    exact member
  · intro member
    exact ⟨_, member, rfl, rfl⟩

@[simp]
theorem mem_remove_generation :
    tracked ∈ (self.removeGeneration key generation).keys ↔
      tracked ∈ self.keys ∧ tracked ≠ ⟨key, generation⟩ := by
  obtain ⟨trackedKey, trackedGeneration⟩ := tracked
  simp only [removeGeneration, mem_filter, Bool.not_eq_true', Bool.and_eq_false_iff,
    decide_eq_false_iff_not, ne_eq, TrackedKey.mk.injEq]
  tauto

theorem evict_oldest_append (maxKeys : Nat) (keys : List TrackedKey) :
    (evictOldest maxKeys keys).2 ++ (evictOldest maxKeys keys).1 = keys := by
  induction keys with
  | nil => rfl
  | cons oldest rest ih =>
    rw [evictOldest]
    split
    · exact congrArg (oldest :: ·) ih
    · rfl

theorem mem_refresh (member : tracked ∈ refresh key generation keys) :
    tracked ∈ keys ∨ tracked = ⟨key, generation⟩ := by
  induction keys with
  | nil => exact .inl member
  | cons existing rest ih =>
    rw [refresh] at member
    split at member
    case isTrue same =>
      rcases mem_cons.1 member with rfl | inRest
      · exact .inr (by simp [same])
      · exact .inl (mem_cons_of_mem _ inRest)
    case isFalse =>
      rcases mem_cons.1 member with rfl | inRest
      · exact .inl mem_cons_self
      · exact (ih inRest).imp_left (mem_cons_of_mem _)

theorem mem_refresh_of_ne (other : tracked.key ≠ key) (member : tracked ∈ keys) :
    tracked ∈ refresh key generation keys := by
  induction keys with
  | nil => exact member
  | cons existing rest ih =>
    rw [refresh]
    rcases mem_cons.1 member with rfl | inRest
    · simp [other]
    split
    · exact mem_cons_of_mem _ inRest
    · exact mem_cons_of_mem _ (ih inRest)

theorem mem_insert_generation
    (member : tracked ∈ (self.insertGeneration key generation maxKeys).1.keys) :
    tracked ∈ self.keys ∨ tracked = ⟨key, generation⟩ := by
  rw [insertGeneration] at member
  split at member
  · exact mem_refresh member
  · rcases mem_append.1 member with kept | own
    · refine .inl ?_
      rw [← evict_oldest_append maxKeys self.keys]
      exact mem_append_right _ kept
    · exact .inr (mem_singleton.1 own)

theorem kept_or_evicted (other : tracked.key ≠ key) (member : tracked ∈ self.keys) :
    tracked ∈ (self.insertGeneration key generation maxKeys).1.keys ∨
      tracked ∈ (self.insertGeneration key generation maxKeys).2.evicted := by
  rw [insertGeneration]
  split
  · exact .inl (mem_refresh_of_ne other member)
  · rw [← evict_oldest_append maxKeys self.keys, mem_append] at member
    rcases member with evicted | kept
    · exact .inr evicted
    · exact .inl (mem_append_left _ kept)

end KeySet

structure StarshardIdentityIndex where
  byObject : AList fun _ : Identity => KeySet
  maxKeysPerIdentity : Nat

namespace StarshardIdentityIndex

def new (maxKeysPerIdentity : Nat) : StarshardIdentityIndex := ⟨∅, maxKeysPerIdentity⟩

/-- `compute_if_present` with the closures of the index: an emptied set is not published again. -/
def computeIfPresent (self : StarshardIdentityIndex) (identity : Identity)
    (change : KeySet → KeySet) : StarshardIdentityIndex :=
  match self.byObject.lookup identity with
  | none => self
  | some keySet =>
    { self with
      byObject :=
        if (change keySet).isEmpty then self.byObject.erase identity
        else self.byObject.insert identity (change keySet) }

def insertGeneration (self : StarshardIdentityIndex) (identity : Identity) (key : Key)
    (generation : Nat) : StarshardIdentityIndex × GenerationalInsertResult :=
  match self.byObject.lookup identity with
  | some keySet =>
    (self.computeIfPresent identity fun keySet =>
        (keySet.insertGeneration key generation self.maxKeysPerIdentity).1,
      (keySet.insertGeneration key generation self.maxKeysPerIdentity).2)
  | none =>
    ({ self with
        byObject := self.byObject.insert identity
          (KeySet.insertGeneration ⟨[]⟩ key generation self.maxKeysPerIdentity).1 },
      (KeySet.insertGeneration ⟨[]⟩ key generation self.maxKeysPerIdentity).2)

def removeIdentity (self : StarshardIdentityIndex) (identity : Identity) :
    StarshardIdentityIndex × List Key :=
  match self.byObject.lookup identity with
  | none => (self, [])
  | some keySet => ({ self with byObject := self.byObject.erase identity }, keySet.cloned)

def removeNext (swept : StarshardIdentityIndex × List Key) (identity : Identity) :
    StarshardIdentityIndex × List Key :=
  ((swept.1.removeIdentity identity).1, swept.2 ++ (swept.1.removeIdentity identity).2)

def removeMatching (self : StarshardIdentityIndex) (predicate : Identity → Bool) :
    StarshardIdentityIndex × List Key :=
  (self.byObject.keys.filter predicate).foldl removeNext (self, [])

def removeGeneration (self : StarshardIdentityIndex) (identity : Identity) (key : Key)
    (generation : Nat) : StarshardIdentityIndex :=
  self.computeIfPresent identity fun keySet => keySet.removeGeneration key generation

def containsGeneration (self : StarshardIdentityIndex) (identity : Identity) (key : Key)
    (generation : Nat) : Bool :=
  (self.byObject.lookup identity).any fun keySet => keySet.containsGeneration key generation

def pruneMissing (self : StarshardIdentityIndex) (identity : Identity) (keyExists : Key → Bool) :
    StarshardIdentityIndex :=
  self.computeIfPresent identity fun keySet => keySet.retain keyExists

def tracked (self : StarshardIdentityIndex) (identity : Identity) : List TrackedKey :=
  ((self.byObject.lookup identity).map KeySet.keys).getD []

def Registered (self : StarshardIdentityIndex) (key : Key) (generation : Nat) : Prop :=
  ⟨key, generation⟩ ∈ self.tracked key.identity

instance (self : StarshardIdentityIndex) (key : Key) (generation : Nat) :
    Decidable (self.Registered key generation) :=
  inferInstanceAs (Decidable (_ ∈ _))

variable {self : StarshardIdentityIndex} {identity : Identity} {key other : Key}
  {generation g : Nat} {keySet : KeySet}

theorem tracked_of_lookup (found : self.byObject.lookup identity = some keySet) :
    self.tracked identity = keySet.keys := by
  simp [tracked, found]

theorem tracked_of_absent (absent : self.byObject.lookup identity = none) :
    self.tracked identity = [] := by
  simp [tracked, absent]

theorem tracked_erase (identity queried : Identity) :
    ({ self with byObject := self.byObject.erase identity } : StarshardIdentityIndex).tracked queried =
      if queried = identity then [] else self.tracked queried := by
  split
  case isTrue same =>
    subst same
    exact tracked_of_absent (AList.lookup_erase _ _)
  case isFalse different => simp [tracked, AList.lookup_erase_ne different]

theorem tracked_insert (identity queried : Identity) (keySet : KeySet) :
    ({ self with byObject := self.byObject.insert identity keySet } :
        StarshardIdentityIndex).tracked queried =
      if queried = identity then keySet.keys else self.tracked queried := by
  split
  case isTrue same =>
    subst same
    exact tracked_of_lookup (AList.lookup_insert _)
  case isFalse different => simp [tracked, AList.lookup_insert_ne different]

theorem tracked_compute_present (change : KeySet → KeySet)
    (found : self.byObject.lookup identity = some keySet) (queried : Identity) :
    (self.computeIfPresent identity change).tracked queried =
      if queried = identity then (change keySet).keys else self.tracked queried := by
  simp only [computeIfPresent, found]
  split
  case isTrue empty => rw [tracked_erase, List.isEmpty_iff.1 empty]
  case isFalse => rw [tracked_insert]

theorem tracked_compute_if_present {change : KeySet → KeySet} (changesNone : change ⟨[]⟩ = ⟨[]⟩)
    (queried : Identity) :
    (self.computeIfPresent identity change).tracked queried =
      if queried = identity then (change ⟨self.tracked identity⟩).keys else self.tracked queried := by
  cases found : self.byObject.lookup identity with
  | some keySet => rw [tracked_compute_present change found, tracked_of_lookup found]
  | none =>
    simp only [computeIfPresent, found]
    split
    case isTrue same => rw [same, tracked_of_absent found, changesNone]
    case isFalse => rfl

theorem contains_generation_iff :
    self.containsGeneration key.identity key generation = true ↔ self.Registered key generation := by
  rw [containsGeneration, Registered, tracked]
  cases self.byObject.lookup key.identity <;> simp

theorem registered_remove_generation {removed : Nat} :
    (self.removeGeneration other.identity other removed).Registered key generation ↔
      self.Registered key generation ∧ (key, generation) ≠ (other, removed) := by
  rw [Registered, removeGeneration, tracked_compute_if_present rfl]
  split
  case isTrue same =>
    rw [KeySet.mem_remove_generation, Registered, same]
    simp
  case isFalse different =>
    have notSame : (key, generation) ≠ (other, removed) := by
      rintro ⟨⟩
      exact different rfl
    simp [Registered, notSame]

theorem registered_prune_missing {keyExists : Key → Bool} :
    (self.pruneMissing identity keyExists).Registered key generation ↔
      self.Registered key generation ∧ (key.identity = identity → keyExists key = true) := by
  rw [Registered, pruneMissing, tracked_compute_if_present rfl]
  split
  case isTrue same => simp [KeySet.retain, Registered, same]
  case isFalse different => simp [Registered, different]

theorem tracked_insert_generation (queried : Identity) :
    (self.insertGeneration identity key generation).1.tracked queried =
      if queried = identity then
        (KeySet.insertGeneration ⟨self.tracked identity⟩ key generation
          self.maxKeysPerIdentity).1.keys
      else self.tracked queried := by
  rw [insertGeneration]
  split
  case h_1 keySet found => rw [tracked_compute_present _ found, tracked_of_lookup found]
  case h_2 absent => rw [tracked_insert, tracked_of_absent absent]

theorem evicted_insert_generation :
    (self.insertGeneration identity key generation).2 =
      (KeySet.insertGeneration ⟨self.tracked identity⟩ key generation
        self.maxKeysPerIdentity).2 := by
  rw [insertGeneration]
  split
  case h_1 keySet found => rw [tracked_of_lookup found]
  case h_2 absent => rw [tracked_of_absent absent]

theorem registered_insert_generation
    (registered : (self.insertGeneration other.identity other generation).1.Registered key g) :
    self.Registered key g ∨ (key, g) = (other, generation) := by
  rw [Registered, tracked_insert_generation] at registered
  split at registered
  case isTrue same =>
    rw [Registered, same]
    exact (KeySet.mem_insert_generation registered).imp_right (by simp)
  case isFalse => exact .inl registered

theorem kept_or_evicted (different : key ≠ other) (registered : self.Registered key g) :
    (self.insertGeneration other.identity other generation).1.Registered key g ∨
      ⟨key, g⟩ ∈ (self.insertGeneration other.identity other generation).2.evicted := by
  rw [Registered, tracked_insert_generation, evicted_insert_generation]
  split
  case isTrue same =>
    rw [Registered, same] at registered
    exact KeySet.kept_or_evicted different registered
  case isFalse => exact .inl registered

theorem tracked_remove_identity (queried : Identity) :
    (self.removeIdentity identity).1.tracked queried =
      if queried = identity then [] else self.tracked queried := by
  rw [removeIdentity]
  split
  case h_1 absent =>
    split
    case isTrue same => rw [same, tracked_of_absent absent]
    case isFalse => rfl
  case h_2 => exact tracked_erase identity queried

theorem removed_identity_keys :
    (self.removeIdentity identity).2 = (self.tracked identity).map TrackedKey.key := by
  rw [removeIdentity]
  split
  case h_1 absent => rw [tracked_of_absent absent, map_nil]
  case h_2 keySet found => rw [tracked_of_lookup found, KeySet.cloned]

/-- What an operation takes that drops the objects of a predicate: their
registrations are gone, the others stay, and the keys are handed out. -/
structure Takes (index taken : StarshardIdentityIndex) (keys : List Key)
    (predicate : Identity → Bool) : Prop where
  left : ∀ key generation, taken.Registered key generation ↔
    index.Registered key generation ∧ predicate key.identity = false
  handedOut : ∀ key generation, index.Registered key generation →
    predicate key.identity = true → key ∈ keys

theorem remove_identity_takes (identity : Identity) :
    self.Takes (self.removeIdentity identity).1 (self.removeIdentity identity).2
      fun queried => queried = identity where
  left key generation := by
    rw [Registered, tracked_remove_identity, Registered]
    split <;> simp [*]
  handedOut key generation registered same := by
    rw [removed_identity_keys, ← of_decide_eq_true same]
    exact mem_map_of_mem registered

theorem Takes.trans {middle taken : StarshardIdentityIndex} {first second : List Key}
    {one two : Identity → Bool} (before : self.Takes middle first one)
    (after : middle.Takes taken second two) :
    self.Takes taken (first ++ second) fun queried => one queried || two queried where
  left key generation := by
    rw [after.left, before.left, Bool.or_eq_false_iff, and_assoc]
  handedOut key generation registered chosen := by
    rw [Bool.or_eq_true] at chosen
    cases taken : one key.identity with
    | true => exact mem_append_left _ (before.handedOut key generation registered taken)
    | false =>
      have second := chosen.resolve_left (by simp [taken])
      have left := (before.left key generation).2 ⟨registered, taken⟩
      exact mem_append_right _ (after.handedOut key generation left second)

theorem takes_none : self.Takes self [] fun _ => false where
  left key generation := by simp
  handedOut key generation registered chosen := by cases chosen

theorem remove_all_takes {start : StarshardIdentityIndex} {removed : List Key}
    {predicate : Identity → Bool} (before : start.Takes self removed predicate)
    (identities : List Identity) :
    start.Takes (identities.foldl removeNext (self, removed)).1
      (identities.foldl removeNext (self, removed)).2
      fun queried => predicate queried || queried ∈ identities := by
  induction identities generalizing self removed predicate with
  | nil => simpa using before
  | cons identity rest ih =>
    have taken := ih (before.trans (remove_identity_takes identity))
    simpa [removeNext, Bool.or_assoc] using taken

theorem registered_mem_keys (registered : self.Registered key generation) :
    key.identity ∈ self.byObject.keys := by
  cases found : self.byObject.lookup key.identity with
  | none =>
    rw [Registered, tracked_of_absent found] at registered
    cases registered
  | some keySet =>
    rw [← AList.mem_keys, ← AList.lookup_isSome, found]
    rfl

theorem remove_matching_takes (predicate : Identity → Bool) :
    self.Takes (self.removeMatching predicate).1 (self.removeMatching predicate).2 predicate where
  left key generation := by
    rw [removeMatching, (remove_all_takes takes_none _).left]
    constructor
    · rintro ⟨registered, notChosen⟩
      have known := registered_mem_keys registered
      exact ⟨registered, by simpa [known] using notChosen⟩
    · rintro ⟨registered, notChosen⟩
      exact ⟨registered, by simp [notChosen]⟩
  handedOut key generation registered chosen :=
    (remove_all_takes takes_none _).handedOut key generation registered
      (by simp [registered_mem_keys registered, chosen])

end StarshardIdentityIndex

/-- `u64::checked_add` and `usize::checked_add` of one. -/
def checkedAdd (value : Nat) : Option Nat := if value + 1 < 2 ^ 64 then some (value + 1) else none

/-- The operation installed in the fence, by the position of its owned drain. -/
inductive ClearOperation
  | waiting
  | draining (keysToRemove : List Key)
  | swept
  | completed
  deriving DecidableEq

structure ClearFence where
  generation : Option Nat
  activeFills : Nat
  clear : Option ClearOperation
  deriving DecidableEq

namespace ClearFence

def new : ClearFence := ⟨some 0, 0, none⟩

/-- Every guard holds a handle on the fence, and `Arc::clone` aborts the process beyond this many. -/
def maxHandles : Nat := 2 ^ 63 - 1

/-- The fence afterwards and the generation of the guard; no outcome when the process aborts. -/
def tryRegisterFill (self : ClearFence) : Option (ClearFence × Option Nat) :=
  if self.clear.isSome then some (self, none)
  else
    match self.generation with
    | none => some (self, none)
    | some generation =>
      match checkedAdd self.activeFills with
      | none => some ({ self with generation := none }, none)
      | some activeFills =>
        if activeFills ≤ maxHandles then some ({ self with activeFills }, some generation)
        else none

def beginClear (self : ClearFence) : ClearFence :=
  if self.clear.isSome then self
  else { self with clear := some .waiting, generation := self.generation.bind checkedAdd }

def finishClear (self : ClearFence) : ClearFence :=
  match self.generation.bind checkedAdd with
  | some next => { self with generation := some next, clear := none }
  | none => { self with generation := none, clear := some .completed }

def isCurrent (self : ClearFence) (guardGeneration : Nat) : Bool :=
  self.clear.isNone && self.generation == some guardGeneration

def dropGuard (self : ClearFence) : ClearFence :=
  match self.activeFills with
  | 0 => { self with generation := none }
  | activeFills + 1 => { self with activeFills }

end ClearFence

structure MokaBackend where
  cache : Key → Option Nat
  index : StarshardIdentityIndex
  nextGeneration : Nat
  clearFence : ClearFence

namespace MokaBackend

def new (identityKeysMax : Nat) : MokaBackend :=
  ⟨fun _ => none, StarshardIdentityIndex.new identityKeysMax, 0, ClearFence.new⟩

def remove (self : MokaBackend) (key : Key) : MokaBackend :=
  { self with cache := Function.update self.cache key none }

def put (self : MokaBackend) (key : Key) (generation : Nat) : MokaBackend :=
  { self with cache := Function.update self.cache key (some generation) }

/-- The conditional computation of the identity-budget eviction. -/
def removeExpected (self : MokaBackend) (evicted : TrackedKey) : MokaBackend :=
  if self.cache evicted.key = some evicted.generation then self.remove evicted.key else self

end MokaBackend

/-- Where a fill stands. A buffered fill begins as the leader of its key and then
registers with the fence; a reserved one holds its guard before it leads. -/
inductive Position
  | leading
  | reserved
  | fenced
  | admitted
  | pruned
  | allocated
  | entered
  | evicting (victims : List TrackedKey)
  | publishing
  | published
  | rechecked (indexed : Bool)
  | undoing
  | undone
  | withdrawing
  | leaving
  | released
  | finished
  deriving DecidableEq

namespace Position

/-- Positions at which the fill is the singleflight leader of its key. -/
def leads : Position → Bool
  | reserved | released | finished => false
  | _ => true

end Position

/-- A fill with the generation of its guard and the generation of its entry,
which is 0 until it is allocated: generations count from 1. -/
structure Fill where
  key : Key
  guardGeneration : Nat
  generation : Nat
  position : Position
  deriving DecidableEq

namespace Fill

def isCurrent (self : Fill) (backend : MokaBackend) : Bool :=
  backend.clearFence.isCurrent self.guardGeneration

def moveTo (self : Fill) (position : Position) : Fill := { self with position }

/-- The next atomic step of `fill_body_inner`, given the keys with a leader. -/
def advance (hasInflight : Key → Bool) (backend : MokaBackend) (self : Fill) :
    Option (MokaBackend × Fill) :=
  match self.position with
  | .leading =>
    backend.clearFence.tryRegisterFill.map fun registered =>
      match registered.2 with
      | none => ({ backend with clearFence := registered.1 }, self.moveTo .finished)
      | some guardGeneration =>
        ({ backend with clearFence := registered.1 },
          { self with guardGeneration, position := .fenced })
  | .reserved =>
    some (backend, self.moveTo (if hasInflight self.key then .released else .fenced))
  | .fenced => some (backend, self.moveTo (if self.isCurrent backend then .admitted else .released))
  | .admitted =>
    some ({ backend with
        index := backend.index.pruneMissing self.key.identity fun candidate =>
          (backend.cache candidate).isSome || hasInflight candidate },
      self.moveTo .pruned)
  | .pruned =>
    match checkedAdd backend.nextGeneration with
    | none => some (backend, self.moveTo .released)
    | some generation =>
      some ({ backend with nextGeneration := generation },
        { self with generation, position := .allocated })
  | .allocated =>
    some (backend, self.moveTo (if self.isCurrent backend then .entered else .released))
  | .entered =>
    some ({ backend with
        index := (backend.index.insertGeneration self.key.identity self.key self.generation).1 },
      self.moveTo (.evicting
        (backend.index.insertGeneration self.key.identity self.key self.generation).2.evicted))
  | .evicting (victim :: victims) =>
    some (backend.removeExpected victim, self.moveTo (.evicting victims))
  | .evicting [] =>
    -- A fill fenced off here leaves its registration to the drain of the clear.
    some (backend, self.moveTo (if self.isCurrent backend then .publishing else .released))
  | .publishing => some (backend.put self.key self.generation, self.moveTo .published)
  | .published =>
    some (backend, self.moveTo (.rechecked
      (backend.index.containsGeneration self.key.identity self.key self.generation)))
  | .rechecked indexed =>
    some (backend, self.moveTo (if self.isCurrent backend && indexed then .released else .undoing))
  | .undoing => some (backend.remove self.key, self.moveTo .undone)
  | .undone =>
    some (backend, self.moveTo (if self.isCurrent backend then .withdrawing else .released))
  | .withdrawing =>
    some ({ backend with
        index := backend.index.removeGeneration self.key.identity self.key self.generation },
      self.moveTo .released)
  | .leaving => some (backend, self.moveTo .finished)
  | .released =>
    some ({ backend with clearFence := backend.clearFence.dropGuard }, self.moveTo .finished)
  | .finished => none

/-- A fill refused for want of a permit or of memory. -/
def skip (self : Fill) : Option Fill :=
  match self.position with
  | .admitted => some (self.moveTo .released)
  | _ => none

/-- A fill dropped by its caller, which is possible until its publication is
spawned: the guard goes first, then the leadership. A reservation has none. -/
def cancel (backend : MokaBackend) (self : Fill) : Option (MokaBackend × Fill) :=
  match self.position with
  | .reserved => some (backend, self.moveTo .released)
  | .admitted | .pruned =>
    some ({ backend with clearFence := backend.clearFence.dropGuard }, self.moveTo .leaving)
  | _ => none

end Fill

/-- The shared state, the eviction notices not yet delivered, the fills begun so
far, and for every invalidation begun so far the keys it has yet to remove. -/
structure System where
  backend : MokaBackend
  notices : List TrackedKey
  fills : List Fill
  invalidations : List (List Key)

inductive Event
  | reserveBody (key : Key)
  | fillBody (key : Key)
  | advance (fill : Nat)
  | skip (fill : Nat)
  | cancel (fill : Nat)
  | invalidateObject (identity : Identity)
  | invalidatePrefix (bucket objectPrefix : String)
  | invalidateBucket (bucket : String)
  | removeKey (invalidation : Nat)
  | evict (key : Key)
  | deliver (notice : Nat)
  | clear
  | drain
  | removeDrained
  | sweep
  | finishClear
  deriving DecidableEq

namespace System

def new (identityKeysMax : Nat) : System := ⟨MokaBackend.new identityKeysMax, [], [], []⟩

def hasInflight (self : System) (key : Key) : Bool :=
  self.fills.any fun fill => fill.key = key && fill.position.leads

def reserveBody (self : System) (key : Key) : Option System :=
  self.backend.clearFence.tryRegisterFill.map fun registered =>
    match registered.2 with
    | none => { self with backend := { self.backend with clearFence := registered.1 } }
    | some guardGeneration =>
      { self with
        backend := { self.backend with clearFence := registered.1 }
        fills := self.fills ++ [⟨key, guardGeneration, 0, .reserved⟩] }

def fillBody (self : System) (key : Key) : System :=
  if self.hasInflight key then self
  else { self with fills := self.fills ++ [⟨key, 0, 0, .leading⟩] }

/-- The task of a fill moves on, with the outcome of its step. -/
def moveFill (self : System) (fill : Nat) (moved : MokaBackend × Fill) : System :=
  { self with backend := moved.1, fills := self.fills.set fill moved.2 }

def beginInvalidation (self : System) (taken : StarshardIdentityIndex × List Key) : System :=
  { self with
    backend := { self.backend with index := taken.1 }
    invalidations := self.invalidations ++ [taken.2] }

def removeKey (self : System) (invalidation : Nat) : Option System :=
  match self.invalidations[invalidation]? with
  | some (key :: keys) =>
    some { self with
      backend := self.backend.remove key
      invalidations := self.invalidations.set invalidation keys }
  | _ => none

/-- Moka drops an entry for its own reasons and owes a notice for it. -/
def evict (self : System) (key : Key) : Option System :=
  (self.backend.cache key).map fun generation =>
    { self with
      backend := self.backend.remove key
      notices := self.notices ++ [⟨key, generation⟩] }

def deliver (self : System) (notice : Nat) : Option System :=
  (self.notices[notice]?).map fun evicted =>
    { self with
      backend :=
        { self.backend with
          index := self.backend.index.removeGeneration evicted.key.identity evicted.key
            evicted.generation }
      notices := self.notices.eraseIdx notice }

def setClear (self : System) (operation : ClearOperation) : System :=
  { self with
    backend :=
      { self.backend with
        clearFence := { self.backend.clearFence with clear := some operation } } }

/-- The drain begins once no fill is registered. -/
def drain (self : System) : Option System :=
  match self.backend.clearFence.clear, self.backend.clearFence.activeFills with
  | some .waiting, 0 =>
    some ({ self with
      backend :=
        { self.backend with index := (self.backend.index.removeMatching fun _ => true).1 } }.setClear
          (.draining (self.backend.index.removeMatching fun _ => true).2))
  | _, _ => none

def removeDrained (self : System) : Option System :=
  match self.backend.clearFence.clear with
  | some (.draining (key :: keys)) =>
    some ({ self with backend := self.backend.remove key }.setClear (.draining keys))
  | _ => none

/-- The sweep over what the index did not know; `invalidate_all` drops every entry. -/
def sweep (self : System) : Option System :=
  match self.backend.clearFence.clear with
  | some (.draining []) =>
    some ({ self with backend := { self.backend with cache := fun _ => none } }.setClear .swept)
  | _ => none

def finishClear (self : System) : Option System :=
  match self.backend.clearFence.clear with
  | some .swept =>
    some { self with
      backend := { self.backend with clearFence := self.backend.clearFence.finishClear } }
  | _ => none

def step (self : System) : Event → Option System
  | .reserveBody key => self.reserveBody key
  | .fillBody key => some (self.fillBody key)
  | .advance fill =>
    (self.fills[fill]?).bind fun task =>
      (task.advance self.hasInflight self.backend).map (self.moveFill fill)
  | .skip fill =>
    (self.fills[fill]?).bind fun task =>
      task.skip.map fun skipped => self.moveFill fill (self.backend, skipped)
  | .cancel fill =>
    (self.fills[fill]?).bind fun task => (task.cancel self.backend).map (self.moveFill fill)
  | .invalidateObject identity =>
    some (self.beginInvalidation (self.backend.index.removeIdentity identity))
  | .invalidatePrefix bucket objectPrefix =>
    some (self.beginInvalidation (self.backend.index.removeMatching fun identity =>
      identity.bucket = bucket && objectPrefix.toList.isPrefixOf identity.object.toList))
  | .invalidateBucket bucket =>
    some (self.beginInvalidation (self.backend.index.removeMatching fun identity =>
      identity.bucket = bucket))
  | .removeKey invalidation => self.removeKey invalidation
  | .evict key => self.evict key
  | .deliver notice => self.deliver notice
  | .clear =>
    some { self with
      backend := { self.backend with clearFence := self.backend.clearFence.beginClear } }
  | .drain => self.drain
  | .removeDrained => self.removeDrained
  | .sweep => self.sweep
  | .finishClear => self.finishClear

end System

end Rustfs.ObjectDataCache
