import Mathlib.Algebra.BigOperators.Group.List.Basic
import Mathlib.Algebra.Order.Floor.Div
import Mathlib.Data.List.Nodup

/-!
# The lock of one object

`lock/src/fast_lock/state.rs`: the word with the writer flag and the number of readers,
and the owners next to it. Operations come one after another, so that nobody waits and
the counters of the waiters in the word are zero.
-/

namespace Rustfs.Lock

open List Option

inductive LockMode
  | shared
  | exclusive
  deriving DecidableEq

structure AtomicLockState where
  writer : Bool
  readers : Nat
  deriving DecidableEq

namespace AtomicLockState

def new : AtomicLockState := ⟨false, 0⟩

def maxReaders : Nat := 0xFF

def tryAcquireShared (state : AtomicLockState) : Option AtomicLockState :=
  if state.writer then none
  else if state.readers = maxReaders then none
  else some { state with readers := state.readers + 1 }

def tryAcquireExclusive (state : AtomicLockState) : Option AtomicLockState :=
  if state.writer ∨ state.readers ≠ 0 then none else some { state with writer := true }

def releaseShared (state : AtomicLockState) : Option AtomicLockState :=
  if state.readers = 0 then none else some { state with readers := state.readers - 1 }

def releaseExclusive (state : AtomicLockState) : Option AtomicLockState :=
  if state.writer then some { state with writer := false } else none

def isFree (state : AtomicLockState) : Bool := state = new

end AtomicLockState

section Owners

variable {Owner : Type} [DecidableEq Owner] {owner : Owner}

structure SharedOwnerEntry (Owner : Type) where
  owner : Owner
  count : Nat

def maxCount : Nat := 2 ^ 32 - 1

def addShared (owner : Owner) : List (SharedOwnerEntry Owner) → List (SharedOwnerEntry Owner)
  | [] => [⟨owner, 1⟩]
  | entry :: rest =>
    if entry.owner = owner then { entry with count := min (entry.count + 1) maxCount } :: rest
    else entry :: addShared owner rest

def removeShared (owner : Owner) : List (SharedOwnerEntry Owner) →
    Option (SharedOwnerEntry Owner × List (SharedOwnerEntry Owner))
  | [] => none
  | entry :: rest =>
    if entry.owner = owner then
      some (entry, if 1 < entry.count then { entry with count := entry.count - 1 } :: rest else rest)
    else (removeShared owner rest).map fun removed => (removed.1, entry :: removed.2)

def sharedCount (owner : Owner) : List (SharedOwnerEntry Owner) → Nat
  | [] => 0
  | entry :: rest => if entry.owner = owner then entry.count else sharedCount owner rest

def totalCount (entries : List (SharedOwnerEntry Owner)) : Nat :=
  (entries.map SharedOwnerEntry.count).sum

/-- One entry for an owner, and none without a hold. -/
structure Counted (entries : List (SharedOwnerEntry Owner)) : Prop where
  distinct : (entries.map SharedOwnerEntry.owner).Nodup
  positive : ∀ entry ∈ entries, 0 < entry.count

omit [DecidableEq Owner] in
theorem Counted.tail {entry : SharedOwnerEntry Owner} {rest : List (SharedOwnerEntry Owner)}
    (counted : Counted (entry :: rest)) : Counted rest where
  distinct := counted.distinct.of_cons
  positive := fun other member => counted.positive other (mem_cons_of_mem _ member)

variable {entry : SharedOwnerEntry Owner} {entries : List (SharedOwnerEntry Owner)}

omit [DecidableEq Owner] in
theorem Counted.fresh {rest : List (SharedOwnerEntry Owner)}
    (counted : Counted (entry :: rest)) : entry.owner ∉ rest.map SharedOwnerEntry.owner :=
  (nodup_cons.1 counted.distinct).1

omit [DecidableEq Owner] in
theorem Counted.cons {entry : SharedOwnerEntry Owner} {rest : List (SharedOwnerEntry Owner)}
    (counted : Counted rest) (fresh : entry.owner ∉ rest.map SharedOwnerEntry.owner)
    (positive : 0 < entry.count) : Counted (entry :: rest) where
  distinct := nodup_cons.2 ⟨fresh, counted.distinct⟩
  positive := forall_mem_cons.2 ⟨positive, counted.positive⟩

omit [DecidableEq Owner] in
theorem total_count_cons (entry : SharedOwnerEntry Owner) (rest : List (SharedOwnerEntry Owner)) :
    totalCount (entry :: rest) = entry.count + totalCount rest := rfl

theorem shared_count_cons (owner : Owner) (entry : SharedOwnerEntry Owner)
    (rest : List (SharedOwnerEntry Owner)) :
    sharedCount owner (entry :: rest) =
      if entry.owner = owner then entry.count else sharedCount owner rest := rfl

theorem shared_count_front
    (isOwner : entry.owner = owner) (rest : List (SharedOwnerEntry Owner)) (change : Nat → Nat) :
    ∀ other, sharedCount other ({ entry with count := change entry.count } :: rest) =
      if other = owner then change (sharedCount other (entry :: rest))
      else sharedCount other (entry :: rest) := by
  intro other
  rw [shared_count_cons, shared_count_cons]
  by_cases same : other = owner
  · rw [if_pos (isOwner.trans same.symm), if_pos (isOwner.trans same.symm), if_pos same]
  · have different : entry.owner ≠ other := fun isOther => same (isOther.symm.trans isOwner)
    rw [if_neg different, if_neg different, if_neg same]

theorem shared_count_behind
    {rest changed : List (SharedOwnerEntry Owner)} (different : entry.owner ≠ owner)
    (change : Nat → Nat) (counts : ∀ other, sharedCount other changed =
      if other = owner then change (sharedCount other rest) else sharedCount other rest) :
    ∀ other, sharedCount other (entry :: changed) =
      if other = owner then change (sharedCount other (entry :: rest))
      else sharedCount other (entry :: rest) := by
  intro other
  rw [shared_count_cons, shared_count_cons]
  by_cases isOther : entry.owner = other
  · have apart : other ≠ owner := fun same => different (isOther.trans same)
    rw [if_pos isOther, if_pos isOther, if_neg apart]
  · rw [if_neg isOther, if_neg isOther]
    exact counts other

theorem shared_count_absent
    (absent : owner ∉ entries.map SharedOwnerEntry.owner) : sharedCount owner entries = 0 := by
  induction entries with
  | nil => rfl
  | cons entry rest ih =>
    rw [map_cons, mem_cons, not_or] at absent
    rw [shared_count_cons, if_neg (Ne.symm absent.1)]
    exact ih absent.2

theorem shared_count_le_total (owner : Owner) (entries : List (SharedOwnerEntry Owner)) :
    sharedCount owner entries ≤ totalCount entries := by
  induction entries with
  | nil => exact Nat.le_refl _
  | cons entry rest ih =>
    rw [shared_count_cons, totalCount, map_cons, sum_cons]
    rw [totalCount] at ih
    split
    all_goals omega

theorem add_shared_owners (owner : Owner) (entries : List (SharedOwnerEntry Owner)) :
    ∀ other, other ∈ (addShared owner entries).map SharedOwnerEntry.owner →
      other = owner ∨ other ∈ entries.map SharedOwnerEntry.owner := by
  induction entries with
  | nil =>
    intro other member
    exact .inl (mem_singleton.1 member)
  | cons entry rest ih =>
    intro other member
    rw [addShared] at member
    split at member
    · exact .inr member
    · rcases mem_cons.1 member with same | later
      · exact .inr (same ▸ mem_cons_self)
      · rcases ih other later with new | old
        · exact .inl new
        · exact .inr (mem_cons_of_mem _ old)

theorem add_shared_counts (owner : Owner)
    (counted : Counted entries) (few : totalCount entries < maxCount) :
    Counted (addShared owner entries) ∧
      totalCount (addShared owner entries) = totalCount entries + 1 ∧
      ∀ other, sharedCount other (addShared owner entries) =
        if other = owner then sharedCount other entries + 1 else sharedCount other entries := by
  induction entries with
  | nil =>
    refine ⟨counted.cons not_mem_nil Nat.one_pos, rfl, ?_⟩
    intro other
    simp only [addShared, sharedCount, eq_comm]
  | cons entry rest ih =>
    have split := total_count_cons entry rest
    rw [addShared]
    by_cases isOwner : entry.owner = owner
    · rw [if_pos isOwner, Nat.min_eq_left (by omega)]
      refine ⟨counted.tail.cons counted.fresh (Nat.succ_pos _), ?_, ?_⟩
      · rw [total_count_cons]
        dsimp only
        omega
      · exact shared_count_front isOwner rest (· + 1)
    · rw [if_neg isOwner]
      obtain ⟨added, total, counts⟩ := ih counted.tail (by omega)
      have fresh : entry.owner ∉ (addShared owner rest).map SharedOwnerEntry.owner := by
        intro member
        rcases add_shared_owners owner rest _ member with same | old
        · exact isOwner same
        · exact counted.fresh old
      refine ⟨added.cons fresh (counted.positive entry mem_cons_self), ?_, ?_⟩
      · rw [total_count_cons]
        omega
      · exact shared_count_behind isOwner (· + 1) counts

theorem remove_shared_none
    (missing : removeShared owner entries = none) : sharedCount owner entries = 0 := by
  induction entries with
  | nil => rfl
  | cons entry rest ih =>
    rw [removeShared] at missing
    split at missing
    · cases missing
    · rename_i different
      rw [shared_count_cons, if_neg different]
      exact ih (map_eq_none_iff.1 missing)

theorem remove_shared_counts {left : List (SharedOwnerEntry Owner)}
    {removed : SharedOwnerEntry Owner} (counted : Counted entries)
    (found : removeShared owner entries = some (removed, left)) :
    Counted left ∧ totalCount left + 1 = totalCount entries ∧ 0 < sharedCount owner entries ∧
      left.map SharedOwnerEntry.owner ⊆ entries.map SharedOwnerEntry.owner ∧
      ∀ other, sharedCount other left =
        if other = owner then sharedCount other entries - 1 else sharedCount other entries := by
  induction entries generalizing left with
  | nil => cases found
  | cons entry rest ih =>
    have split := total_count_cons entry rest
    have positive := counted.positive entry mem_cons_self
    rw [removeShared] at found
    by_cases isOwner : entry.owner = owner
    · rw [if_pos isOwner] at found
      have held : 0 < sharedCount owner (entry :: rest) := by
        rw [shared_count_cons, if_pos isOwner]
        exact positive
      by_cases several : 1 < entry.count
      · rw [if_pos several] at found
        cases found
        refine ⟨counted.tail.cons counted.fresh (Nat.sub_pos_of_lt several), ?_, held,
          List.Subset.refl _, shared_count_front isOwner rest (· - 1)⟩
        rw [total_count_cons]
        dsimp only
        omega
      · rw [if_neg several] at found
        cases found
        refine ⟨counted.tail, by omega, held, subset_cons_self _ _, ?_⟩
        intro other
        rw [shared_count_cons]
        by_cases same : other = owner
        · have absent := shared_count_absent counted.fresh
          rw [isOwner, ← same] at absent
          rw [if_pos (isOwner.trans same.symm), if_pos same]
          omega
        · have different : removed.owner ≠ other := fun isOther => same (isOther.symm.trans isOwner)
          rw [if_neg different, if_neg same]
    · rw [if_neg isOwner] at found
      obtain ⟨⟨_, shorter⟩, inRest, isRemoved⟩ := map_eq_some_iff.1 found
      cases isRemoved
      obtain ⟨less, total, held, owners, counts⟩ := ih counted.tail inRest
      have fresh : entry.owner ∉ shorter.map SharedOwnerEntry.owner :=
        fun member => counted.fresh (owners member)
      refine ⟨less.cons fresh positive, ?_, ?_, cons_subset_cons _ owners,
        shared_count_behind isOwner (· - 1) counts⟩
      · rw [total_count_cons]
        dsimp only
        omega
      · rw [shared_count_cons, if_neg isOwner]
        exact held

structure ObjectLockState (Owner : Type) where
  atomicState : AtomicLockState
  currentOwner : Option Owner
  sharedOwners : List (SharedOwnerEntry Owner)

namespace ObjectLockState

def new : ObjectLockState Owner := ⟨.new, none, []⟩

def tryAcquire (state : ObjectLockState Owner) (owner : Owner) : LockMode →
    Option (ObjectLockState Owner)
  | .shared => state.atomicState.tryAcquireShared.map fun atomic =>
    { state with atomicState := atomic, sharedOwners := addShared owner state.sharedOwners }
  | .exclusive => state.atomicState.tryAcquireExclusive.map fun atomic =>
    { state with atomicState := atomic, currentOwner := some owner }

/-- The owner has its hold back after the word could not be changed. -/
def restoreShared (entry : SharedOwnerEntry Owner) (left : List (SharedOwnerEntry Owner)) :
    List (SharedOwnerEntry Owner) :=
  if 1 < entry.count then addShared entry.owner left else left ++ [entry]

def releaseShared (state : ObjectLockState Owner) (owner : Owner) : ObjectLockState Owner × Bool :=
  match removeShared owner state.sharedOwners with
  | none => (state, false)
  | some (entry, left) =>
    match state.atomicState.releaseShared with
    | some atomic => ({ state with atomicState := atomic, sharedOwners := left }, true)
    | none => ({ state with sharedOwners := restoreShared entry left }, false)

def releaseExclusive (state : ObjectLockState Owner) (owner : Owner) :
    ObjectLockState Owner × Bool :=
  if state.currentOwner = some owner then
    match state.atomicState.releaseExclusive with
    | some atomic => ({ state with atomicState := atomic, currentOwner := none }, true)
    | none => (state, false)
  else (state, false)

def release (state : ObjectLockState Owner) (owner : Owner) : LockMode → ObjectLockState Owner × Bool
  | .shared => state.releaseShared owner
  | .exclusive => state.releaseExclusive owner

def isLocked (state : ObjectLockState Owner) : Bool := !state.atomicState.isFree

/-- The holds of an owner: those its entry counts, as far as the word has them. -/
def holds (state : ObjectLockState Owner) (owner : Owner) : LockMode → Nat
  | .shared => min (sharedCount owner state.sharedOwners) state.atomicState.readers
  | .exclusive => if state.atomicState.writer = true ∧ state.currentOwner = some owner then 1 else 0

structure Consistent (state : ObjectLockState Owner) : Prop where
  counted : Counted state.sharedOwners
  readers : totalCount state.sharedOwners = state.atomicState.readers
  bounded : state.atomicState.readers ≤ AtomicLockState.maxReaders
  writer : state.atomicState.writer = state.currentOwner.isSome
  apart : state.atomicState.writer = true → state.atomicState.readers = 0

variable {state next : ObjectLockState Owner} {owner : Owner} {mode : LockMode}

omit [DecidableEq Owner] in
theorem new_consistent : (new : ObjectLockState Owner).Consistent where
  counted := ⟨nodup_nil, fun entry member => by cases member⟩
  readers := rfl
  bounded := Nat.zero_le _
  writer := rfl
  apart := fun _ => rfl

theorem Consistent.shared_holds (consistent : state.Consistent) (owner : Owner) :
    state.holds owner .shared = sharedCount owner state.sharedOwners := by
  apply Nat.min_eq_left
  rw [← consistent.readers]
  exact shared_count_le_total owner state.sharedOwners

theorem new_holds (owner : Owner) (mode : LockMode) : (new : ObjectLockState Owner).holds owner mode = 0 := by
  cases mode with
  | shared => rfl
  | exclusive => rfl

theorem try_acquire_holds (consistent : state.Consistent)
    (acquired : state.tryAcquire owner mode = some next) :
    next.Consistent ∧ ∀ other kind, next.holds other kind =
      state.holds other kind + if other = owner ∧ kind = mode then 1 else 0 := by
  cases mode with
  | shared =>
    obtain ⟨atomic, taken, rfl⟩ := map_eq_some_iff.1 acquired
    unfold AtomicLockState.tryAcquireShared at taken
    split at taken
    · cases taken
    · rename_i noWriter
      split at taken
      · cases taken
      · cases taken
        have bounded := consistent.bounded
        have few : totalCount state.sharedOwners < maxCount := by
          have limit : AtomicLockState.maxReaders < maxCount := by decide
          rw [consistent.readers]
          omega
        obtain ⟨counted, total, counts⟩ := add_shared_counts owner consistent.counted few
        have kept : Consistent { state with
            atomicState := { state.atomicState with readers := state.atomicState.readers + 1 }
            sharedOwners := addShared owner state.sharedOwners } := by
          refine ⟨counted, total.trans (congrArg (· + 1) consistent.readers), ?_,
            consistent.writer, fun isWriter => absurd isWriter noWriter⟩
          dsimp only
          omega
        refine ⟨kept, ?_⟩
        intro other kind
        cases kind with
        | shared =>
          rw [kept.shared_holds, consistent.shared_holds]
          rw [counts other]
          split
          all_goals simp [*]
        | exclusive => simp [holds]
  | exclusive =>
    obtain ⟨atomic, taken, rfl⟩ := map_eq_some_iff.1 acquired
    unfold AtomicLockState.tryAcquireExclusive at taken
    split at taken
    · cases taken
    · rename_i free
      cases taken
      push Not at free
      refine ⟨⟨consistent.counted, consistent.readers, consistent.bounded, rfl, fun _ => free.2⟩, ?_⟩
      intro other kind
      cases kind with
      | shared => simp [holds]
      | exclusive => simp [holds, free.1, eq_comm]

theorem absent_holds (absent : state.holds owner mode = 0) (other : Owner) (kind : LockMode) :
    state.holds other kind = state.holds other kind - if other = owner ∧ kind = mode then 1 else 0 := by
  split
  · rename_i same
    rw [same.1, same.2, absent]
  · rfl

theorem release_shared_holds (consistent : state.Consistent) (owner : Owner) :
    (state.releaseShared owner).1.Consistent ∧
      ((state.releaseShared owner).2 = true ↔ 0 < state.holds owner .shared) ∧
      ∀ other kind, (state.releaseShared owner).1.holds other kind =
        state.holds other kind - if other = owner ∧ kind = .shared then 1 else 0 := by
  unfold releaseShared
  cases found : removeShared owner state.sharedOwners with
  | none =>
    have absent : state.holds owner .shared = 0 := by
      rw [consistent.shared_holds]
      exact remove_shared_none found
    exact ⟨consistent, by simp [absent], absent_holds absent⟩
  | some removed =>
    obtain ⟨entry, left⟩ := removed
    obtain ⟨counted, total, held, _, counts⟩ := remove_shared_counts consistent.counted found
    have readers := consistent.readers
    have bounded := consistent.bounded
    have nonzero : state.atomicState.readers ≠ 0 := by omega
    have noWriter : ¬ state.atomicState.writer = true := fun isWriter =>
      nonzero (consistent.apart isWriter)
    unfold AtomicLockState.releaseShared
    rw [if_neg nonzero]
    have kept : Consistent { state with
        atomicState := { state.atomicState with readers := state.atomicState.readers - 1 }
        sharedOwners := left } := by
      refine ⟨counted, ?_, ?_, consistent.writer, fun isWriter => absurd isWriter noWriter⟩
      all_goals
        dsimp only
        omega
    refine ⟨kept, ?_, ?_⟩
    · rw [consistent.shared_holds]
      simp [held]
    · intro other kind
      cases kind with
      | shared =>
        rw [kept.shared_holds, consistent.shared_holds]
        rw [counts other]
        split
        all_goals simp [*]
      | exclusive => simp [holds]

theorem release_exclusive_holds (consistent : state.Consistent) (owner : Owner) :
    (state.releaseExclusive owner).1.Consistent ∧
      ((state.releaseExclusive owner).2 = true ↔ 0 < state.holds owner .exclusive) ∧
      ∀ other kind, (state.releaseExclusive owner).1.holds other kind =
        state.holds other kind - if other = owner ∧ kind = .exclusive then 1 else 0 := by
  unfold releaseExclusive
  by_cases isOwner : state.currentOwner = some owner
  · have isWriter : state.atomicState.writer = true := by
      rw [consistent.writer, isOwner]
      rfl
    rw [if_pos isOwner]
    unfold AtomicLockState.releaseExclusive
    rw [if_pos isWriter]
    refine ⟨⟨consistent.counted, consistent.readers, consistent.bounded, rfl, ?_⟩, ?_, ?_⟩
    · intro impossible
      cases impossible
    · simp [holds, isWriter, isOwner]
    · intro other kind
      cases kind with
      | shared => simp [holds]
      | exclusive =>
        by_cases same : other = owner
        · simp [holds, isWriter, isOwner, same]
        · simp [holds, isWriter, isOwner, same, Ne.symm same]
  · have absent : state.holds owner .exclusive = 0 := by simp [holds, isOwner]
    rw [if_neg isOwner]
    exact ⟨consistent, by simp [absent], absent_holds absent⟩

theorem release_holds (consistent : state.Consistent) (owner : Owner) (mode : LockMode) :
    (state.release owner mode).1.Consistent ∧
      ((state.release owner mode).2 = true ↔ 0 < state.holds owner mode) ∧
      ∀ other kind, (state.release owner mode).1.holds other kind =
        state.holds other kind - if other = owner ∧ kind = mode then 1 else 0 := by
  cases mode with
  | shared => exact release_shared_holds consistent owner
  | exclusive => exact release_exclusive_holds consistent owner

theorem holds_of_free (free : state.isLocked = false) (owner : Owner) (mode : LockMode) :
    state.holds owner mode = 0 := by
  have word : state.atomicState = .new := by
    simpa [isLocked, AtomicLockState.isFree] using free
  cases mode with
  | shared =>
    dsimp only [holds]
    rw [word]
    exact Nat.min_zero _
  | exclusive =>
    dsimp only [holds]
    rw [word, if_neg]
    simp [AtomicLockState.new]

end ObjectLockState

end Owners

end Rustfs.Lock
