import Rustfs.Lock.ObjectLock
import Mathlib.Data.List.Count
import Mathlib.Data.List.Induction
import Mathlib.Logic.Function.Basic

/-!
# The lock manager of a node and its guards

`shard.rs`, `manager.rs` and `guard.rs` of `lock/src/fast_lock`, for operations that
come one after another. A guard knows its own id, but the hold it gives back is found by
owner and mode; a forced release gives holds back and leaves the guards registered.
Waiting with timeouts, the pool of states and the number that a forced release returns
are left out.
-/

namespace Rustfs.Lock

open List Option Function

section

variable {Key Owner : Type} [DecidableEq Key] [DecidableEq Owner]

structure LockShard (Key Owner : Type) where
  objects : Key → Option (ObjectLockState Owner)
  activeGuards : List Nat

namespace LockShard

def new : LockShard Key Owner := ⟨fun _ => none, []⟩

def put (shard : LockShard Key Owner) (key : Key) (state : ObjectLockState Owner) :
    LockShard Key Owner :=
  { shard with objects := Function.update shard.objects key (some state) }

/-- An object that is not there yet gets a new state. A request that finds the lock
taken runs into its time-out. -/
def acquireLock (shard : LockShard Key Owner) (key : Key) (owner : Owner) (mode : LockMode) :
    Option (LockShard Key Owner) :=
  (((shard.objects key).getD .new).tryAcquire owner mode).map (shard.put key)

def releaseLock (shard : LockShard Key Owner) (key : Key) (owner : Owner) (mode : LockMode) :
    LockShard Key Owner × Bool :=
  match shard.objects key with
  | some state => (shard.put key (state.release owner mode).1, (state.release owner mode).2)
  | none => (shard, false)

def registerGuard (shard : LockShard Key Owner) (guardId : Nat) : LockShard Key Owner :=
  { shard with activeGuards := guardId :: shard.activeGuards }

def unregisterGuard (shard : LockShard Key Owner) (guardId : Nat) : LockShard Key Owner :=
  { shard with activeGuards := shard.activeGuards.filter fun other => other ≠ guardId }

def releaseLockWithGuard (shard : LockShard Key Owner) (key : Key) (owner : Owner) (mode : LockMode)
    (guardId : Nat) : LockShard Key Owner × Bool :=
  if guardId ∈ shard.activeGuards then (shard.unregisterGuard guardId).releaseLock key owner mode
  else (shard, false)

def forceReleaseAll (shard : LockShard Key Owner) (key : Key) : LockShard Key Owner :=
  match shard.objects key with
  | none => shard
  | some state =>
    let pairs := (state.currentOwner.toList.map fun owner => (owner, LockMode.exclusive)) ++
      state.sharedOwners.map fun entry => (entry.owner, LockMode.shared)
    pairs.foldl (fun shard pair => (shard.releaseLock key pair.1 pair.2).1) shard

def cleanupExpired (shard : LockShard Key Owner) (idle : Key → Bool) : LockShard Key Owner :=
  { shard with objects := fun key =>
      (shard.objects key).bind fun state => if !state.isLocked && idle key then none else some state }

end LockShard

/-- A key belongs to one shard. -/
structure FastObjectLockManager (Key Owner : Type) where
  shardIndex : Key → Nat
  shards : Nat → LockShard Key Owner

structure FastLockGuard (Key Owner : Type) where
  key : Key
  mode : LockMode
  owner : Owner
  released : Bool
  guardId : Nat

namespace FastObjectLockManager

def new (shardIndex : Key → Nat) : FastObjectLockManager Key Owner := ⟨shardIndex, fun _ => .new⟩

def getShard (manager : FastObjectLockManager Key Owner) (key : Key) : LockShard Key Owner :=
  manager.shards (manager.shardIndex key)

def setShard (manager : FastObjectLockManager Key Owner) (key : Key) (shard : LockShard Key Owner) :
    FastObjectLockManager Key Owner :=
  { manager with shards := Function.update manager.shards (manager.shardIndex key) shard }

def acquireLock (manager : FastObjectLockManager Key Owner) (key : Key) (owner : Owner)
    (mode : LockMode) (guardId : Nat) : Option (FastObjectLockManager Key Owner) :=
  ((manager.getShard key).acquireLock key owner mode).map fun shard =>
    manager.setShard key (shard.registerGuard guardId)

def forceUnlock (manager : FastObjectLockManager Key Owner) (key : Key) :
    FastObjectLockManager Key Owner :=
  manager.setShard key ((manager.getShard key).forceReleaseAll key)

def cleanupExpired (manager : FastObjectLockManager Key Owner) (idle : Key → Bool) :
    FastObjectLockManager Key Owner :=
  { manager with shards := fun index => (manager.shards index).cleanupExpired idle }

def holds (manager : FastObjectLockManager Key Owner) (key : Key) (owner : Owner) (mode : LockMode) :
    Nat :=
  ((manager.getShard key).objects key).elim 0 fun state => state.holds owner mode

end FastObjectLockManager

namespace FastLockGuard

def releaseLock (guard : FastLockGuard Key Owner) (manager : FastObjectLockManager Key Owner) :
    FastObjectLockManager Key Owner × Bool :=
  let released := (manager.getShard guard.key).releaseLockWithGuard guard.key guard.owner guard.mode
    guard.guardId
  (manager.setShard guard.key released.1, released.2)

def unregister (guard : FastLockGuard Key Owner) (manager : FastObjectLockManager Key Owner) :
    FastObjectLockManager Key Owner :=
  manager.setShard guard.key ((manager.getShard guard.key).unregisterGuard guard.guardId)

def release (guard : FastLockGuard Key Owner) (manager : FastObjectLockManager Key Owner) :
    FastLockGuard Key Owner × FastObjectLockManager Key Owner :=
  if guard.released then (guard, manager)
  else if (guard.releaseLock manager).2 then
    ({ guard with released := true }, guard.unregister (guard.releaseLock manager).1)
  else (guard, (guard.releaseLock manager).1)

def drop (guard : FastLockGuard Key Owner) (manager : FastObjectLockManager Key Owner) :
    FastObjectLockManager Key Owner :=
  guard.unregister (if guard.released then manager else (guard.releaseLock manager).1)

end FastLockGuard

/-- A guard that was handed out: whether it is dropped, and whether its key was force
unlocked since. -/
structure Handle (Key Owner : Type) where
  guard : FastLockGuard Key Owner
  dropped : Bool
  forced : Bool

def Handle.isGranted (handle : Handle Key Owner) : Bool :=
  !handle.dropped && !handle.guard.released && !handle.forced

def Handle.grants (handle : Handle Key Owner) (key : Key) (owner : Owner) (mode : LockMode) : Bool :=
  handle.isGranted && decide (handle.guard.key = key ∧ handle.guard.owner = owner ∧
    handle.guard.mode = mode)

/-- A node: its manager and the guards in the order of their ids. -/
structure Node (Key Owner : Type) where
  manager : FastObjectLockManager Key Owner
  handles : List (Handle Key Owner)

inductive Operation (Key Owner : Type)
  | acquireLock (key : Key) (owner : Owner) (mode : LockMode)
  | release (guardId : Nat)
  | drop (guardId : Nat)
  | forceUnlock (key : Key)
  | cleanupExpired (idle : Key → Bool)

namespace Node

def new (shardIndex : Key → Nat) : Node Key Owner := ⟨.new shardIndex, []⟩

/-- A guard can be used until it is dropped. -/
def handle (node : Node Key Owner) (guardId : Nat) : Option (Handle Key Owner) :=
  node.handles[guardId]?.filter fun handle => !handle.dropped

def step (node : Node Key Owner) : Operation Key Owner → Option (Node Key Owner)
  | .acquireLock key owner mode =>
    match node.manager.acquireLock key owner mode node.handles.length with
    | some manager => some
        { manager := manager
          handles := node.handles ++ [⟨⟨key, mode, owner, false, node.handles.length⟩, false, false⟩] }
    | none => some node
  | .release guardId => (node.handle guardId).map fun handle =>
    { manager := (handle.guard.release node.manager).2
      handles := node.handles.set guardId
        { handle with guard := (handle.guard.release node.manager).1 } }
  | .drop guardId => (node.handle guardId).map fun handle =>
    { manager := handle.guard.drop node.manager
      handles := node.handles.set guardId { handle with dropped := true } }
  | .forceUnlock key => some
      { manager := node.manager.forceUnlock key
        handles := node.handles.map fun handle =>
          if handle.guard.key = key then { handle with forced := true } else handle }
  | .cleanupExpired idle => some { node with manager := node.manager.cleanupExpired idle }

def steps (node : Node Key Owner) : List (Operation Key Owner) → Option (Node Key Owner)
  | [] => some node
  | operation :: rest => (node.step operation).bind fun next => next.steps rest

def granted (node : Node Key Owner) (key : Key) (owner : Owner) (mode : LockMode) : Nat :=
  node.handles.countP fun handle => handle.grants key owner mode

/-- Every guard that was granted a hold has one. Holds are counted by owner and mode, as the
manager keeps no other record of whose they are. -/
def InForce (node : Node Key Owner) : Prop :=
  ∀ key owner mode, node.granted key owner mode ≤ node.manager.holds key owner mode

/-- A guard that is still registered after its key was force unlocked gives a hold back
that is nobody's. -/
def SafeToEnd (node : Node Key Owner) (guardId : Nat) : Prop :=
  ∀ handle, node.handle guardId = some handle → handle.forced = true →
    handle.guard.released = false →
    guardId ∈ (node.manager.getShard handle.guard.key).activeGuards →
    node.granted handle.guard.key handle.guard.owner handle.guard.mode = 0 ∨
      node.granted handle.guard.key handle.guard.owner handle.guard.mode <
        node.manager.holds handle.guard.key handle.guard.owner handle.guard.mode

def Safe (node : Node Key Owner) : Operation Key Owner → Prop
  | .release guardId => node.SafeToEnd guardId
  | .drop guardId => node.SafeToEnd guardId
  | _ => True

end Node

end

section

variable {Key Owner : Type} [DecidableEq Key] [DecidableEq Owner]

namespace LockShard

variable {shard next : LockShard Key Owner} {key : Key} {owner : Owner} {mode : LockMode}

def holds (shard : LockShard Key Owner) (key : Key) (owner : Owner) (mode : LockMode) : Nat :=
  (shard.objects key).elim 0 fun state => state.holds owner mode

def Consistent (shard : LockShard Key Owner) : Prop :=
  ∀ key state, shard.objects key = some state → state.Consistent

omit [DecidableEq Owner] in
theorem put_consistent {state : ObjectLockState Owner} (consistent : shard.Consistent)
    (isConsistent : state.Consistent) : (shard.put key state).Consistent := by
  intro other found isFound
  dsimp only [put] at isFound
  by_cases same : other = key
  · subst same
    rw [update_self] at isFound
    cases isFound
    exact isConsistent
  · rw [update_of_ne same] at isFound
    exact consistent other found isFound

theorem put_holds (state : ObjectLockState Owner) (other : Key) (someone : Owner) (kind : LockMode) :
    (shard.put key state).holds other someone kind =
      if other = key then state.holds someone kind else shard.holds other someone kind := by
  unfold holds put
  dsimp only
  split
  · rename_i same
    subst same
    rw [update_self]
    rfl
  · rename_i different
    rw [update_of_ne different]

theorem acquire_lock_holds (consistent : shard.Consistent)
    (acquired : shard.acquireLock key owner mode = some next) :
    next.Consistent ∧ ∀ other someone kind, next.holds other someone kind =
      shard.holds other someone kind +
        if other = key ∧ someone = owner ∧ kind = mode then 1 else 0 := by
  obtain ⟨state, taken, rfl⟩ := map_eq_some_iff.1 acquired
  have before : ((shard.objects key).getD .new).Consistent ∧ ∀ someone kind,
      ((shard.objects key).getD .new).holds someone kind = shard.holds key someone kind := by
    unfold holds
    cases found : shard.objects key with
    | none => exact ⟨ObjectLockState.new_consistent, ObjectLockState.new_holds⟩
    | some state => exact ⟨consistent key state found, fun _ _ => rfl⟩
  obtain ⟨kept, counts⟩ := ObjectLockState.try_acquire_holds before.1 taken
  refine ⟨put_consistent consistent kept, ?_⟩
  intro other someone kind
  rw [put_holds]
  split
  · rename_i same
    subst same
    rw [counts, before.2]
    simp
  · rename_i different
    rw [if_neg fun all => different all.1]
    rfl

theorem release_lock_holds (consistent : shard.Consistent) (key : Key) (owner : Owner)
    (mode : LockMode) :
    (shard.releaseLock key owner mode).1.Consistent ∧
      ((shard.releaseLock key owner mode).2 = true ↔ 0 < shard.holds key owner mode) ∧
      ∀ other someone kind, (shard.releaseLock key owner mode).1.holds other someone kind =
        shard.holds other someone kind -
          if other = key ∧ someone = owner ∧ kind = mode then 1 else 0 := by
  unfold releaseLock
  cases found : shard.objects key with
  | none =>
    have empty : shard.holds key owner mode = 0 := by
      unfold holds
      rw [found]
      rfl
    dsimp only
    refine ⟨consistent, by simp [empty], ?_⟩
    intro other someone kind
    split
    · rename_i same
      rw [same.1, same.2.1, same.2.2, empty]
    · rfl
  | some state =>
    obtain ⟨kept, answer, counts⟩ :=
      ObjectLockState.release_holds (consistent key state found) owner mode
    have same : ∀ someone kind, shard.holds key someone kind = state.holds someone kind := by
      intro someone kind
      unfold holds
      rw [found]
      rfl
    refine ⟨put_consistent consistent kept, ?_, ?_⟩
    · rw [same]
      exact answer
    · intro other someone kind
      rw [put_holds]
      split
      · rename_i isKey
        subst isKey
        rw [counts, same]
        simp
      · rename_i different
        rw [if_neg fun all => different all.1]
        rfl

theorem force_release_all_holds (consistent : shard.Consistent) (key : Key) :
    (shard.forceReleaseAll key).Consistent ∧ ∀ other someone kind, other ≠ key →
      (shard.forceReleaseAll key).holds other someone kind = shard.holds other someone kind := by
  have each : ∀ (pairs : List (Owner × LockMode)) (shard : LockShard Key Owner), shard.Consistent →
      (pairs.foldl (fun shard pair => (shard.releaseLock key pair.1 pair.2).1) shard).Consistent ∧
      ∀ other someone kind, other ≠ key →
        (pairs.foldl (fun shard pair => (shard.releaseLock key pair.1 pair.2).1) shard).holds
          other someone kind = shard.holds other someone kind := by
    intro pairs
    induction pairs with
    | nil => exact fun shard isConsistent => ⟨isConsistent, fun _ _ _ _ => rfl⟩
    | cons pair pairs ih =>
      intro shard isConsistent
      obtain ⟨kept, _, counts⟩ := release_lock_holds isConsistent key pair.1 pair.2
      obtain ⟨final, same⟩ := ih _ kept
      refine ⟨final, ?_⟩
      intro other someone kind different
      refine (same other someone kind different).trans ?_
      rw [counts, if_neg fun all => different all.1]
      rfl
  unfold forceReleaseAll
  cases found : shard.objects key with
  | none => exact ⟨consistent, fun _ _ _ _ => rfl⟩
  | some state => exact each _ shard consistent

omit [DecidableEq Key] in
theorem cleanup_expired_holds (consistent : shard.Consistent) (idle : Key → Bool) :
    (shard.cleanupExpired idle).Consistent ∧ ∀ other someone kind,
      (shard.cleanupExpired idle).holds other someone kind = shard.holds other someone kind := by
  constructor
  · intro other state isFound
    obtain ⟨old, isOld, kept⟩ := bind_eq_some_iff.1 isFound
    split at kept
    · cases kept
    · cases kept
      exact consistent other _ isOld
  · intro other someone kind
    unfold holds cleanupExpired
    dsimp only
    cases found : shard.objects other with
    | none => rfl
    | some state =>
      dsimp only [Option.bind]
      split
      · rename_i forgotten
        rw [Bool.and_eq_true, Bool.not_eq_true'] at forgotten
        exact (ObjectLockState.holds_of_free forgotten.1 someone kind).symm
      · rfl

end LockShard

namespace FastObjectLockManager

variable {manager next : FastObjectLockManager Key Owner} {key : Key} {owner : Owner}
  {mode : LockMode} {guardId : Nat} {shard : LockShard Key Owner}

def Consistent (manager : FastObjectLockManager Key Owner) : Prop :=
  ∀ index, (manager.shards index).Consistent

omit [DecidableEq Key] [DecidableEq Owner] in
theorem set_shard_consistent (consistent : manager.Consistent)
    (isConsistent : shard.Consistent) : (manager.setShard key shard).Consistent := by
  intro index
  dsimp only [setShard]
  by_cases same : index = manager.shardIndex key
  · rw [same, update_self]
    exact isConsistent
  · rw [update_of_ne same]
    exact consistent index

omit [DecidableEq Key] in
theorem set_shard_holds (change : Nat → Nat) {other : Key} {someone : Owner} {kind : LockMode}
    (changed : shard.holds other someone kind = change ((manager.getShard key).holds other someone kind))
    (elsewhere : other ≠ key → change = id) :
    (manager.setShard key shard).holds other someone kind =
      change (manager.holds other someone kind) := by
  unfold holds getShard setShard
  dsimp only
  by_cases same : manager.shardIndex other = manager.shardIndex key
  · rw [same, update_self]
    exact changed
  · have different : other ≠ key := fun isKey => same (congrArg manager.shardIndex isKey)
    rw [update_of_ne same, elsewhere different]
    rfl

theorem acquire_lock_holds (consistent : manager.Consistent)
    (acquired : manager.acquireLock key owner mode guardId = some next) :
    next.Consistent ∧ ∀ other someone kind, next.holds other someone kind =
      manager.holds other someone kind +
        if other = key ∧ someone = owner ∧ kind = mode then 1 else 0 := by
  obtain ⟨shard, taken, rfl⟩ := map_eq_some_iff.1 acquired
  obtain ⟨kept, counts⟩ := LockShard.acquire_lock_holds (consistent _) taken
  refine ⟨set_shard_consistent consistent kept, ?_⟩
  intro other someone kind
  apply set_shard_holds (· + if other = key ∧ someone = owner ∧ kind = mode then 1 else 0)
  · exact counts other someone kind
  · intro different
    rw [if_neg fun all => different all.1]
    rfl

theorem force_unlock_holds (consistent : manager.Consistent) (key : Key) :
    (manager.forceUnlock key).Consistent ∧ ∀ other someone kind, other ≠ key →
      (manager.forceUnlock key).holds other someone kind = manager.holds other someone kind := by
  obtain ⟨kept, same⟩ := LockShard.force_release_all_holds (consistent (manager.shardIndex key)) key
  refine ⟨set_shard_consistent consistent kept, ?_⟩
  intro other someone kind different
  exact set_shard_holds id (same other someone kind different) fun _ => rfl

omit [DecidableEq Key] in
theorem cleanup_expired_holds (consistent : manager.Consistent) (idle : Key → Bool) :
    (manager.cleanupExpired idle).Consistent ∧ ∀ other someone kind,
      (manager.cleanupExpired idle).holds other someone kind = manager.holds other someone kind :=
  ⟨fun index => (LockShard.cleanup_expired_holds (consistent index) idle).1,
    fun other => (LockShard.cleanup_expired_holds (consistent (manager.shardIndex other)) idle).2 other⟩

end FastObjectLockManager

namespace FastLockGuard

variable {manager : FastObjectLockManager Key Owner} (guard : FastLockGuard Key Owner)

def Active (guard : FastLockGuard Key Owner) (manager : FastObjectLockManager Key Owner) : Prop :=
  guard.guardId ∈ (manager.getShard guard.key).activeGuards

instance (guard : FastLockGuard Key Owner) (manager : FastObjectLockManager Key Owner) :
    Decidable (guard.Active manager) :=
  inferInstanceAs (Decidable (_ ∈ _))

omit [DecidableEq Key] in
theorem unregister_holds (consistent : manager.Consistent) :
    (guard.unregister manager).Consistent ∧ ∀ key owner mode,
      (guard.unregister manager).holds key owner mode = manager.holds key owner mode := by
  constructor
  · exact FastObjectLockManager.set_shard_consistent consistent (consistent _)
  · intro key owner mode
    exact FastObjectLockManager.set_shard_holds id rfl fun _ => rfl

theorem release_lock_holds (consistent : manager.Consistent) :
    (guard.releaseLock manager).1.Consistent ∧
      ((guard.releaseLock manager).2 = true ↔
        guard.Active manager ∧ 0 < manager.holds guard.key guard.owner guard.mode) ∧
      ∀ key owner mode, (guard.releaseLock manager).1.holds key owner mode =
        manager.holds key owner mode - if guard.Active manager ∧ key = guard.key ∧
          owner = guard.owner ∧ mode = guard.mode then 1 else 0 := by
  unfold releaseLock LockShard.releaseLockWithGuard
  by_cases active : guard.Active manager
  · have isActive : guard.guardId ∈ (manager.getShard guard.key).activeGuards := active
    rw [if_pos isActive]
    have before : ((manager.getShard guard.key).unregisterGuard guard.guardId).Consistent :=
      consistent _
    obtain ⟨kept, answer, counts⟩ :=
      LockShard.release_lock_holds before guard.key guard.owner guard.mode
    refine ⟨FastObjectLockManager.set_shard_consistent consistent kept, ?_, ?_⟩
    · rw [answer]
      exact ⟨fun held => ⟨active, held⟩, fun both => both.2⟩
    · intro key owner mode
      apply FastObjectLockManager.set_shard_holds (· - if guard.Active manager ∧ key = guard.key ∧
          owner = guard.owner ∧ mode = guard.mode then 1 else 0)
      · rw [counts]
        simp only [active, true_and]
        rfl
      · intro different
        rw [if_neg fun all => different all.2.1]
        rfl
  · have notActive : guard.guardId ∉ (manager.getShard guard.key).activeGuards := active
    rw [if_neg notActive]
    refine ⟨FastObjectLockManager.set_shard_consistent consistent (consistent _), ?_, ?_⟩
    · simp [active]
    · intro key owner mode
      rw [if_neg fun all => active all.1]
      exact FastObjectLockManager.set_shard_holds id rfl fun _ => rfl

theorem release_holds (consistent : manager.Consistent) :
    (guard.release manager).2.Consistent ∧
      ∀ key owner mode, (guard.release manager).2.holds key owner mode =
        manager.holds key owner mode - if (guard.released = false ∧ guard.Active manager) ∧
          key = guard.key ∧ owner = guard.owner ∧ mode = guard.mode then 1 else 0 := by
  obtain ⟨kept, _, counts⟩ := guard.release_lock_holds consistent
  obtain ⟨unregistered, same⟩ := guard.unregister_holds kept
  unfold release
  cases released : guard.released with
  | true =>
    refine ⟨consistent, ?_⟩
    intro key owner mode
    simp
  | false =>
    rw [if_neg Bool.false_ne_true]
    split
    · refine ⟨unregistered, ?_⟩
      intro key owner mode
      rw [same, counts]
      simp
    · refine ⟨kept, ?_⟩
      intro key owner mode
      rw [counts]
      simp

theorem drop_holds (consistent : manager.Consistent) :
    (guard.drop manager).Consistent ∧
      ∀ key owner mode, (guard.drop manager).holds key owner mode =
        manager.holds key owner mode - if (guard.released = false ∧ guard.Active manager) ∧
          key = guard.key ∧ owner = guard.owner ∧ mode = guard.mode then 1 else 0 := by
  obtain ⟨kept, _, counts⟩ := guard.release_lock_holds consistent
  unfold drop
  cases released : guard.released with
  | true =>
    rw [if_pos rfl]
    obtain ⟨unregistered, same⟩ := guard.unregister_holds consistent
    refine ⟨unregistered, ?_⟩
    intro key owner mode
    rw [same]
    simp
  | false =>
    rw [if_neg Bool.false_ne_true]
    obtain ⟨unregistered, same⟩ := guard.unregister_holds kept
    refine ⟨unregistered, ?_⟩
    intro key owner mode
    rw [same, counts]
    simp

theorem release_guard (consistent : manager.Consistent) :
    (guard.release manager).1 =
      if guard.released = false ∧ guard.Active manager ∧
          0 < manager.holds guard.key guard.owner guard.mode then { guard with released := true }
      else guard := by
  obtain ⟨_, answer, _⟩ := guard.release_lock_holds consistent
  unfold release
  cases released : guard.released with
  | true => simp
  | false =>
    rw [if_neg Bool.false_ne_true]
    by_cases ended : (guard.releaseLock manager).2 = true
    · rw [if_pos ended, if_pos ⟨rfl, answer.1 ended⟩]
    · rw [if_neg ended, if_neg fun all => ended (answer.2 all.2)]

end FastLockGuard

namespace Node

variable {node next : Node Key Owner} {key : Key} {owner : Owner} {mode : LockMode} {guardId : Nat}
  {handle changed : Handle Key Owner} {operation : Operation Key Owner}

structure Sound (node : Node Key Owner) : Prop where
  consistent : node.manager.Consistent
  ids : ∀ (guardId : Nat) (handle : Handle Key Owner), node.handles[guardId]? = some handle →
    handle.guard.guardId = guardId

omit [DecidableEq Key] [DecidableEq Owner] in
theorem handle_eq_some (found : node.handle guardId = some handle) :
    node.handles[guardId]? = some handle ∧ handle.dropped = false := by
  obtain ⟨isHandle, usable⟩ := filter_eq_some_iff.1 found
  exact ⟨isHandle, by simpa using usable⟩

theorem granted_set (manager : FastObjectLockManager Key Owner) (changed : Handle Key Owner)
    (found : node.handles[guardId]? = some handle) (key : Key) (owner : Owner) (mode : LockMode) :
    (Node.mk manager (node.handles.set guardId changed)).granted key owner mode +
        (if handle.grants key owner mode = true then 1 else 0) =
      node.granted key owner mode + if changed.grants key owner mode = true then 1 else 0 := by
  obtain ⟨bound, isHandle⟩ := List.getElem?_eq_some_iff.1 found
  unfold granted
  rw [countP_set bound, isHandle]
  split
  · rename_i isGranted
    have counted : 0 < node.handles.countP fun handle => handle.grants key owner mode :=
      countP_pos_iff.2 ⟨handle, mem_of_getElem? found, isGranted⟩
    omega
  · omega

theorem in_force_at (inForce : node.InForce) {atKey : Key} {atOwner : Owner} {atMode : LockMode}
    (fewer : ∀ key owner mode, next.granted key owner mode ≤ node.granted key owner mode)
    (elsewhere : ∀ key owner mode, ¬ (key = atKey ∧ owner = atOwner ∧ mode = atMode) →
      next.manager.holds key owner mode = node.manager.holds key owner mode) :
    next.InForce ↔ next.granted atKey atOwner atMode ≤ next.manager.holds atKey atOwner atMode := by
  constructor
  · exact fun all => all _ _ _
  · intro here key owner mode
    by_cases same : key = atKey ∧ owner = atOwner ∧ mode = atMode
    · rw [same.1, same.2.1, same.2.2]
      exact here
    · rw [elsewhere key owner mode same]
      exact Nat.le_trans (fewer key owner mode) (inForce key owner mode)

theorem end_in_force (inForce : node.InForce) (found : node.handle guardId = some handle)
    (own : handle.guard.guardId = guardId)
    (holds : ∀ key owner mode, next.manager.holds key owner mode =
      node.manager.holds key owner mode -
        if (handle.guard.released = false ∧ handle.guard.Active node.manager) ∧
          key = handle.guard.key ∧ owner = handle.guard.owner ∧ mode = handle.guard.mode then 1 else 0)
    (fewer : ∀ key owner mode, next.granted key owner mode ≤ node.granted key owner mode)
    (forced : handle.forced = true → ∀ key owner mode,
      next.granted key owner mode = node.granted key owner mode)
    (ended : handle.forced = false → handle.guard.released = false →
      handle.guard.Active node.manager →
      0 < node.manager.holds handle.guard.key handle.guard.owner handle.guard.mode →
      next.granted handle.guard.key handle.guard.owner handle.guard.mode + 1 =
        node.granted handle.guard.key handle.guard.owner handle.guard.mode) :
    next.InForce ↔ node.SafeToEnd guardId := by
  subst own
  obtain ⟨isHandle, notDropped⟩ := handle_eq_some found
  have before := inForce handle.guard.key handle.guard.owner handle.guard.mode
  have elsewhere : ∀ key owner mode,
      ¬ (key = handle.guard.key ∧ owner = handle.guard.owner ∧ mode = handle.guard.mode) →
        next.manager.holds key owner mode = node.manager.holds key owner mode := by
    intro key owner mode different
    rw [holds, if_neg fun all => different all.2]
    rfl
  rw [in_force_at inForce fewer elsewhere, holds]
  simp only [and_self, and_true]
  by_cases gives : handle.guard.released = false ∧ handle.guard.Active node.manager
  · rw [if_pos gives]
    obtain ⟨notReleased, active⟩ := gives
    cases isForced : handle.forced with
    | true =>
      rw [forced isForced]
      constructor
      · intro enough other isOther _ _ _
        cases found.symm.trans isOther
        omega
      · intro safe
        have cases := safe handle found isForced notReleased active
        omega
    | false =>
      have isGranted : 0 < node.granted handle.guard.key handle.guard.owner handle.guard.mode := by
        refine countP_pos_iff.2 ⟨handle, mem_of_getElem? isHandle, ?_⟩
        simp [Handle.grants, Handle.isGranted, notDropped, notReleased, isForced]
      have less := ended isForced notReleased active (by omega)
      constructor
      · intro _ other isOther wasForced
        cases found.symm.trans isOther
        rw [isForced] at wasForced
        cases wasForced
      · intro _
        omega
  · rw [if_neg gives]
    constructor
    · intro _ other isOther _ notReleased active
      cases found.symm.trans isOther
      exact absurd ⟨notReleased, active⟩ gives
    · intro _
      exact Nat.le_trans (fewer _ _ _) before

omit [DecidableEq Key] [DecidableEq Owner] in
theorem set_sound {manager : FastObjectLockManager Key Owner}
    (sound : node.Sound) (consistent : manager.Consistent)
    (found : node.handles[guardId]? = some handle)
    (same : changed.guard.guardId = handle.guard.guardId) :
    (Node.mk manager (node.handles.set guardId changed)).Sound := by
  refine ⟨consistent, ?_⟩
  intro other isHandle isOther
  rw [getElem?_set] at isOther
  split at isOther
  · rename_i isChanged
    subst isChanged
    split at isOther
    · cases isOther
      exact same.trans (sound.ids _ handle found)
    · cases isOther
  · exact sound.ids other isHandle isOther

theorem not_grants_of_ended (ended : changed.isGranted = false)
    (key : Key) (owner : Owner) (mode : LockMode) : changed.grants key owner mode = false := by
  unfold Handle.grants
  rw [ended]
  rfl

theorem granted_ended (manager : FastObjectLockManager Key Owner)
    (found : node.handles[guardId]? = some handle) (ended : changed.isGranted = false) :
    (∀ key owner mode,
      (Node.mk manager (node.handles.set guardId changed)).granted key owner mode ≤
        node.granted key owner mode) ∧
    (handle.isGranted = false → ∀ key owner mode,
      (Node.mk manager (node.handles.set guardId changed)).granted key owner mode =
        node.granted key owner mode) ∧
    (handle.isGranted = true →
      (Node.mk manager (node.handles.set guardId changed)).granted handle.guard.key
          handle.guard.owner handle.guard.mode + 1 =
        node.granted handle.guard.key handle.guard.owner handle.guard.mode) := by
  have counts := fun key owner mode => granted_set manager changed found key owner mode
  simp only [not_grants_of_ended ended, Bool.false_eq_true, if_false, Nat.add_zero] at counts
  refine ⟨?_, ?_, ?_⟩
  · intro key owner mode
    exact Nat.le.intro (counts key owner mode)
  · intro already key owner mode
    have count := counts key owner mode
    rw [not_grants_of_ended already] at count
    simpa using count
  · intro isGranted
    have count := counts handle.guard.key handle.guard.owner handle.guard.mode
    simpa [Handle.grants, isGranted] using count

theorem acquire_lock_sound (sound : node.Sound)
    (stepped : node.step (.acquireLock key owner mode) = some next) :
    next.Sound ∧ (node.InForce → next.InForce) := by
  dsimp only [step] at stepped
  cases acquired : node.manager.acquireLock key owner mode node.handles.length with
  | none =>
    rw [acquired] at stepped
    cases stepped
    exact ⟨sound, id⟩
  | some manager =>
    rw [acquired] at stepped
    cases stepped
    obtain ⟨consistent, holds⟩ :=
      FastObjectLockManager.acquire_lock_holds sound.consistent acquired
    refine ⟨⟨consistent, ?_⟩, ?_⟩
    · intro other handle isOther
      rw [getElem?_append] at isOther
      split at isOther
      · exact sound.ids other handle isOther
      · obtain ⟨bound, isNew⟩ := List.getElem?_eq_some_iff.1 isOther
        have last : other = node.handles.length := by
          rw [length_singleton] at bound
          omega
        subst last
        rw [← isNew]
        simp
    · intro inForce someKey someone kind
      have before := inForce someKey someone kind
      unfold granted at before ⊢
      rw [countP_append, countP_singleton, holds]
      refine Nat.add_le_add before (Nat.le_of_eq ?_)
      refine if_congr ?_ rfl rfl
      simp only [Handle.grants, Handle.isGranted, Bool.not_false, Bool.and_self, Bool.true_and,
        decide_eq_true_eq]
      constructor
      all_goals
        intro same
        exact ⟨same.1.symm, same.2.1.symm, same.2.2.symm⟩

theorem release_sound (sound : node.Sound) (stepped : node.step (.release guardId) = some next) :
    next.Sound ∧ (node.InForce → (next.InForce ↔ node.SafeToEnd guardId)) := by
  obtain ⟨handle, found, rfl⟩ := map_eq_some_iff.1 stepped
  obtain ⟨isHandle, notDropped⟩ := handle_eq_some found
  obtain ⟨consistent, holds⟩ := handle.guard.release_holds sound.consistent
  rw [handle.guard.release_guard sound.consistent]
  split
  · have ended : Handle.isGranted { handle with guard := { handle.guard with released := true } } =
        false := by
      simp [Handle.isGranted]
    obtain ⟨fewer, same, less⟩ := granted_ended (handle.guard.release node.manager).2 isHandle ended
    refine ⟨set_sound sound consistent isHandle rfl, fun inForce =>
      end_in_force inForce found (sound.ids guardId handle isHandle) holds fewer ?_ ?_⟩
    · intro isForced
      exact same (by simp [Handle.isGranted, isForced])
    · intro notForced notReleased _ _
      exact less (by simp [Handle.isGranted, notDropped, notReleased, notForced])
  · rename_i gives
    have unchanged : ∀ key owner mode,
        (Node.mk (handle.guard.release node.manager).2
          (node.handles.set guardId handle)).granted key owner mode = node.granted key owner mode := by
      intro key owner mode
      have counts := granted_set (handle.guard.release node.manager).2 handle isHandle key owner mode
      omega
    refine ⟨set_sound sound consistent isHandle rfl, fun inForce =>
      end_in_force inForce found (sound.ids guardId handle isHandle) holds ?_ ?_ ?_⟩
    · exact fun key owner mode => Nat.le_of_eq (unchanged key owner mode)
    · exact fun _ => unchanged
    · intro _ notReleased active held
      exact absurd ⟨notReleased, active, held⟩ gives

theorem drop_sound (sound : node.Sound) (stepped : node.step (.drop guardId) = some next) :
    next.Sound ∧ (node.InForce → (next.InForce ↔ node.SafeToEnd guardId)) := by
  obtain ⟨handle, found, rfl⟩ := map_eq_some_iff.1 stepped
  obtain ⟨isHandle, notDropped⟩ := handle_eq_some found
  obtain ⟨consistent, holds⟩ := handle.guard.drop_holds sound.consistent
  have ended : Handle.isGranted { handle with dropped := true } = false := by
    simp [Handle.isGranted]
  obtain ⟨fewer, same, less⟩ := granted_ended (handle.guard.drop node.manager) isHandle ended
  refine ⟨set_sound sound consistent isHandle rfl, fun inForce =>
    end_in_force inForce found (sound.ids guardId handle isHandle) holds fewer ?_ ?_⟩
  · intro isForced
    exact same (by simp [Handle.isGranted, isForced])
  · intro notForced notReleased _ _
    exact less (by simp [Handle.isGranted, notDropped, notReleased, notForced])

theorem force_unlock_sound (sound : node.Sound)
    (stepped : node.step (.forceUnlock key) = some next) :
    next.Sound ∧ (node.InForce → next.InForce) := by
  cases stepped
  obtain ⟨consistent, holds⟩ := FastObjectLockManager.force_unlock_holds sound.consistent key
  refine ⟨⟨consistent, ?_⟩, ?_⟩
  · intro guardId handle isHandle
    rw [getElem?_map] at isHandle
    obtain ⟨old, isOld, rfl⟩ := map_eq_some_iff.1 isHandle
    split
    all_goals exact sound.ids guardId old isOld
  · intro inForce other someone kind
    have before := inForce other someone kind
    unfold granted at before ⊢
    rw [countP_map]
    by_cases same : other = key
    · subst same
      have vacant : ∀ handle ∈ node.handles, ¬ ((fun handle => handle.grants other someone kind) ∘
          fun handle : Handle Key Owner =>
            if handle.guard.key = other then { handle with forced := true } else handle) handle =
          true := by
        intro handle _
        dsimp only [Function.comp]
        split
        · simp [Handle.grants, Handle.isGranted]
        · rename_i different
          simp [Handle.grants, different]
      rw [countP_eq_zero.2 vacant]
      exact Nat.zero_le _
    · rw [holds other someone kind same]
      refine Nat.le_trans (countP_mono_left ?_) before
      intro handle _ isGranted
      dsimp only [Function.comp] at isGranted
      split at isGranted
      · simp [Handle.grants, Handle.isGranted] at isGranted
      · exact isGranted

theorem cleanup_expired_sound (sound : node.Sound) {idle : Key → Bool}
    (stepped : node.step (.cleanupExpired idle) = some next) :
    next.Sound ∧ (node.InForce → next.InForce) := by
  cases stepped
  obtain ⟨consistent, holds⟩ := FastObjectLockManager.cleanup_expired_holds sound.consistent idle
  refine ⟨⟨consistent, sound.ids⟩, ?_⟩
  intro inForce key owner mode
  rw [holds]
  exact inForce key owner mode

theorem step_sound (sound : node.Sound) (stepped : node.step operation = some next) :
    next.Sound ∧ (node.InForce → (next.InForce ↔ node.Safe operation)) := by
  have always : next.Sound ∧ (node.InForce → next.InForce) → next.Sound ∧
      (node.InForce → (next.InForce ↔ True)) := by
    intro both
    exact ⟨both.1, fun inForce => iff_true_intro (both.2 inForce)⟩
  cases operation with
  | acquireLock key owner mode => exact always (acquire_lock_sound sound stepped)
  | release guardId => exact release_sound sound stepped
  | drop guardId => exact drop_sound sound stepped
  | forceUnlock key => exact always (force_unlock_sound sound stepped)
  | cleanupExpired idle => exact always (cleanup_expired_sound sound stepped)

omit [DecidableEq Key] [DecidableEq Owner] in
theorem new_sound (shardIndex : Key → Nat) : (new shardIndex : Node Key Owner).Sound where
  consistent := fun index key state found => by cases found
  ids := fun guardId handle found => by cases found

theorem new_in_force (shardIndex : Key → Nat) : (new shardIndex : Node Key Owner).InForce :=
  fun _ _ _ => Nat.zero_le _

theorem steps_append (before : List (Operation Key Owner)) (operation : Operation Key Owner) :
    node.steps (before ++ [operation]) = (node.steps before).bind fun middle =>
      middle.step operation := by
  induction before generalizing node with
  | nil => simp [steps]
  | cons first before ih =>
    rw [cons_append, steps, steps, bind_assoc]
    congr 1
    funext next
    exact ih

theorem steps_sound (sound : node.Sound) {operations : List (Operation Key Owner)}
    (ran : node.steps operations = some next) : next.Sound := by
  induction operations generalizing node with
  | nil =>
    cases ran
    exact sound
  | cons operation operations ih =>
    obtain ⟨middle, stepped, rest⟩ := bind_eq_some_iff.1 ran
    exact ih (step_sound sound stepped).1 rest

theorem safe_of_stuck (stuck : node.step operation = none) : node.Safe operation := by
  cases operation with
  | acquireLock key owner mode => trivial
  | release guardId | drop guardId =>
    intro handle found
    rw [map_eq_none_iff.1 stuck] at found
    cases found
  | forceUnlock key => trivial
  | cleanupExpired idle => trivial

/-- In every state of a run all guards have their holds, exactly if no guard of a key that was
force unlocked takes the hold of another guard when it ends. What a step may do is judged in the
state before it. -/
theorem guards_stay_in_force_iff (shardIndex : Key → Nat) (operations : List (Operation Key Owner)) :
    (∀ before, before <+: operations → ∀ node, (new shardIndex).steps before = some node →
      node.InForce) ↔
    ∀ before operation, before ++ [operation] <+: operations →
      ∀ node, (new shardIndex).steps before = some node → node.Safe operation := by
  constructor
  · intro inForce before operation isPrefix node ran
    have earlier : before <+: operations := (prefix_append before [operation]).trans isPrefix
    cases stepped : node.step operation with
    | none => exact safe_of_stuck stepped
    | some next =>
      have reached : (new shardIndex).steps (before ++ [operation]) = some next := by
        rw [steps_append, ran]
        exact stepped
      have sound := steps_sound (new_sound shardIndex) ran
      exact ((step_sound sound stepped).2 (inForce before earlier node ran)).1
        (inForce _ isPrefix next reached)
  · intro safe before
    induction before using List.reverseRecOn with
    | nil =>
      intro _ node ran
      cases ran
      exact new_in_force shardIndex
    | append_singleton before operation ih =>
      intro isPrefix node ran
      have earlier : before <+: operations := (prefix_append before [operation]).trans isPrefix
      rw [steps_append] at ran
      obtain ⟨middle, reached, stepped⟩ := bind_eq_some_iff.1 ran
      have sound := steps_sound (new_sound shardIndex) reached
      exact ((step_sound sound stepped).2 (ih earlier middle reached)).2
        (safe before operation isPrefix middle reached)

/-- An owner is force unlocked, locks the object again, and then drops its first guard. -/
def staleDrop : List (Operation Nat String) :=
  [.acquireLock 0 "node" .exclusive, .forceUnlock 0, .acquireLock 0 "node" .exclusive, .drop 0]

theorem stale_drop_takes_the_new_hold :
    ∃ node, (new fun _ => 0).steps staleDrop = some node ∧
      node.granted 0 "node" .exclusive = 1 ∧ node.manager.holds 0 "node" .exclusive = 0 ∧
      ¬ node.InForce := by
  refine ⟨_, rfl, by decide, by decide, ?_⟩
  intro inForce
  exact absurd (inForce 0 "node" .exclusive) (by decide)

end Node

end

variable {Key Owner : Type} [DecidableEq Key] [DecidableEq Owner]

inductive ShardOperation (Key Owner : Type)
  | acquireLock (key : Key) (owner : Owner) (mode : LockMode)
  | releaseLock (key : Key) (owner : Owner) (mode : LockMode)

namespace LockShard

variable {shard : LockShard Key Owner} {key : Key}

def step (shard : LockShard Key Owner) : ShardOperation Key Owner → LockShard Key Owner
  | .acquireLock key owner mode => (shard.acquireLock key owner mode).getD shard
  | .releaseLock key owner mode => (shard.releaseLock key owner mode).1

def steps (shard : LockShard Key Owner) (operations : List (ShardOperation Key Owner)) :
    LockShard Key Owner :=
  operations.foldl step shard

omit [DecidableEq Key] [DecidableEq Owner] in
theorem new_consistent : (new : LockShard Key Owner).Consistent := by
  intro key state found
  cases found

theorem step_consistent (consistent : shard.Consistent) (operation : ShardOperation Key Owner) :
    (shard.step operation).Consistent := by
  cases operation with
  | acquireLock key owner mode =>
    dsimp only [step]
    cases acquired : shard.acquireLock key owner mode with
    | none => exact consistent
    | some next => exact (acquire_lock_holds consistent acquired).1
  | releaseLock key owner mode => exact (release_lock_holds consistent key owner mode).1

theorem steps_consistent (consistent : shard.Consistent)
    (operations : List (ShardOperation Key Owner)) : (shard.steps operations).Consistent := by
  induction operations generalizing shard with
  | nil => exact consistent
  | cons operation rest ih => exact ih (step_consistent consistent operation)

/-- The lock on the key has no holder of either mode, and its word is free. -/
def Unheld (shard : LockShard Key Owner) (key : Key) : Prop :=
  ∀ state, shard.objects key = some state →
    state.currentOwner = none ∧ state.sharedOwners = [] ∧ state.atomicState = .new

theorem release_pairs_holds (consistent : shard.Consistent) (pairs : List (Owner × LockMode))
    (owner : Owner) (mode : LockMode) :
    (pairs.foldl (fun shard pair => (shard.releaseLock key pair.1 pair.2).1) shard).holds
      key owner mode = shard.holds key owner mode - pairs.count (owner, mode) := by
  induction pairs generalizing shard with
  | nil => rfl
  | cons pair pairs ih =>
    obtain ⟨kept, _, counts⟩ := release_lock_holds consistent key pair.1 pair.2
    have own : (key = key ∧ owner = pair.1 ∧ mode = pair.2) ↔ pair = (owner, mode) := by
      rw [Prod.ext_iff]
      exact ⟨fun same => ⟨same.2.1.symm, same.2.2.symm⟩, fun same => ⟨rfl, same.1.symm, same.2.symm⟩⟩
    rw [foldl_cons, ih kept, counts, count_cons, if_congr own rfl rfl, Nat.sub_sub]
    simp only [beq_iff_eq]
    rw [Nat.add_comm]

/-- The owners and modes the forced release goes through. -/
def owned (state : ObjectLockState Owner) : List (Owner × LockMode) :=
  (state.currentOwner.toList.map fun owner => (owner, LockMode.exclusive)) ++
    state.sharedOwners.map fun entry => (entry.owner, LockMode.shared)

theorem owned_exclusive (state : ObjectLockState Owner) (owner : Owner) :
    (owned state).count (owner, .exclusive) = if state.currentOwner = some owner then 1 else 0 := by
  have noShared : (state.sharedOwners.map fun entry => (entry.owner, LockMode.shared)).count
      (owner, .exclusive) = 0 := by
    apply count_eq_zero_of_not_mem
    intro member
    obtain ⟨entry, _, same⟩ := mem_map.1 member
    cases same
  unfold owned
  rw [List.count_append, noShared, Nat.add_zero]
  cases state.currentOwner with
  | none => rfl
  | some current => simp [count_cons]

theorem owned_shared (state : ObjectLockState Owner) (owner : Owner) :
    (owned state).count (owner, .shared) =
      (state.sharedOwners.map SharedOwnerEntry.owner).count owner := by
  have noExclusive : (state.currentOwner.toList.map fun owner => (owner, LockMode.exclusive)).count
      (owner, .shared) = 0 := by
    apply count_eq_zero_of_not_mem
    intro member
    obtain ⟨current, _, same⟩ := mem_map.1 member
    cases same
  have paired : (state.sharedOwners.map fun entry => (entry.owner, LockMode.shared)) =
      (state.sharedOwners.map SharedOwnerEntry.owner).map fun owner => (owner, LockMode.shared) := by
    rw [List.map_map]
    rfl
  have injective : Function.Injective fun owner : Owner => (owner, LockMode.shared) := by
    intro one other same
    exact congrArg Prod.fst same
  unfold owned
  rw [List.count_append, noExclusive, Nat.zero_add, paired]
  exact count_map_of_injective _ _ injective owner

theorem force_release_all_key_holds (consistent : shard.Consistent) (key : Key) (owner : Owner) :
    (shard.forceReleaseAll key).holds key owner .exclusive = 0 ∧
      (shard.forceReleaseAll key).holds key owner .shared = shard.holds key owner .shared - 1 := by
  unfold forceReleaseAll
  cases found : shard.objects key with
  | none =>
    unfold holds
    rw [found]
    exact ⟨rfl, rfl⟩
  | some state =>
    have agrees := consistent key state found
    have atKey (mode : LockMode) : shard.holds key owner mode = state.holds owner mode := by
      unfold holds
      rw [found]
      rfl
    have released (mode : LockMode) := @release_pairs_holds _ _ _ _ shard key consistent
      (owned state) owner mode
    constructor
    · refine (released .exclusive).trans ?_
      rw [atKey, owned_exclusive]
      dsimp only [ObjectLockState.holds]
      split
      · rename_i held
        rw [if_pos held.2]
      · exact Nat.zero_sub _
    · refine (released .shared).trans ?_
      rw [atKey, owned_shared, agrees.shared_holds]
      by_cases member : owner ∈ state.sharedOwners.map SharedOwnerEntry.owner
      · rw [count_eq_one_of_mem agrees.counted.distinct member]
      · rw [count_eq_zero_of_not_mem member, shared_count_absent member]

omit [DecidableEq Key] in
theorem unheld_iff (consistent : shard.Consistent) (key : Key) :
    shard.Unheld key ↔ ∀ owner mode, shard.holds key owner mode = 0 := by
  unfold Unheld holds
  cases found : shard.objects key with
  | none => simp
  | some state =>
    have agrees := consistent key state found
    constructor
    · intro unheld owner mode
      obtain ⟨noOwner, noShared, free⟩ := unheld state rfl
      apply ObjectLockState.holds_of_free
      simp [ObjectLockState.isLocked, AtomicLockState.isFree, free]
    · intro nobody other isState
      cases isState
      have noOwner : state.currentOwner = none := by
        cases owned : state.currentOwner with
        | none => rfl
        | some owner =>
          have held := nobody owner .exclusive
          have isWriter := agrees.writer
          simp [ObjectLockState.holds, isWriter, owned] at held
      have noShared : state.sharedOwners = [] := by
        cases entries : state.sharedOwners with
        | nil => rfl
        | cons entry rest =>
          have held : state.holds entry.owner .shared = 0 := nobody entry.owner .shared
          have positive := agrees.counted.positive entry (entries ▸ mem_cons_self)
          rw [agrees.shared_holds, entries, sharedCount, if_pos rfl] at held
          omega
      have readers := agrees.readers
      have writer := agrees.writer
      rw [noShared] at readers
      rw [noOwner] at writer
      refine ⟨noOwner, noShared, ?_⟩
      cases word : state.atomicState with
      | mk isWriter count =>
        rw [word] at readers writer
        cases readers
        cases writer
        rfl

/-- A forced unlock clears the lock exactly if no owner has the shared lock more than once: the
release takes one unit of every owner it finds, whatever the number of its holds. -/
theorem force_unlock_clears_iff (operations : List (ShardOperation Key Owner)) (key : Key) :
    (((new : LockShard Key Owner).steps operations).forceReleaseAll key).Unheld key ↔
      ∀ owner, ((new : LockShard Key Owner).steps operations).holds key owner .shared ≤ 1 := by
  have consistent : ((new : LockShard Key Owner).steps operations).Consistent :=
    steps_consistent new_consistent operations
  rw [unheld_iff (force_release_all_holds consistent key).1]
  constructor
  · intro cleared owner
    have left := cleared owner .shared
    rw [(force_release_all_key_holds consistent key owner).2] at left
    omega
  · intro once owner mode
    obtain ⟨exclusive, shared⟩ := force_release_all_key_holds consistent key owner
    have atMost := once owner
    cases mode with
    | exclusive => exact exclusive
    | shared =>
      omega

/-- Two holds of one owner: one is left. -/
theorem second_hold_survives_force_unlock :
    ¬ (((new : LockShard Nat String).steps
      [.acquireLock 0 "reader" .shared, .acquireLock 0 "reader" .shared]).forceReleaseAll 0).Unheld 0 := by
  intro cleared
  have left := (cleared _ rfl).2.1
  cases left

end LockShard

end Rustfs.Lock
