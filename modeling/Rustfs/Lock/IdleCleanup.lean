import Rustfs.Lock.ObjectLock
import Mathlib.Data.List.Count
import Mathlib.Data.List.Induction

/-!
# Acquirers and the idle cleanup

`LockShard::try_fast_path`, `acquire_lock_slow_path`, `release_lock` and the sweeps of
`lock/src/fast_lock/shard.rs`, as the atomic steps of acquirers of one key. An acquirer clones the
handle of the key's state out of the map before it swaps the state's word, and a sweep looks at the
word only. Deadlines only decide which step an acquirer takes next. Which keys a sweep samples is
left open: it may visit any key.
-/

namespace Rustfs.Lock

open List Option

variable {Owner : Type} [DecidableEq Owner] {mode : LockMode}

/-- The lock of an object with the counters of the waiters in its word, and when it was
last used, in seconds. -/
structure WaitedState (Owner : Type) where
  lock : ObjectLockState Owner
  readersWaiting : Nat
  writersWaiting : Nat
  lastAccessed : Nat

variable {next : WaitedState Owner}

namespace WaitedState

def new (now : Nat) : WaitedState Owner := ⟨.new, 0, 0, now⟩

def maxWaiting : Nat := 0xFFFF

/-- Readers do not pass a waiting writer; a writer only looks at the owners. -/
def tryAcquire (state : WaitedState Owner) (owner : Owner) (mode : LockMode) (now : Nat) :
    Option (WaitedState Owner) :=
  if mode = .shared ∧ state.writersWaiting ≠ 0 then none
  else (state.lock.tryAcquire owner mode).map fun lock => { state with lock := lock, lastAccessed := now }

def release (state : WaitedState Owner) (owner : Owner) (mode : LockMode) (now : Nat) :
    WaitedState Owner :=
  if (state.lock.release owner mode).2 then
    { state with lock := (state.lock.release owner mode).1, lastAccessed := now }
  else { state with lock := (state.lock.release owner mode).1 }

/-- The state with a waiter more, unless the counter is full. -/
def incWaiting (state : WaitedState Owner) : LockMode → WaitedState Owner × Bool
  | .shared =>
    if state.readersWaiting = maxWaiting then (state, false)
    else ({ state with readersWaiting := state.readersWaiting + 1 }, true)
  | .exclusive =>
    if state.writersWaiting = maxWaiting then (state, false)
    else ({ state with writersWaiting := state.writersWaiting + 1 }, true)

def decWaiting (state : WaitedState Owner) : LockMode → WaitedState Owner
  | .shared => { state with readersWaiting := state.readersWaiting - 1 }
  | .exclusive => { state with writersWaiting := state.writersWaiting - 1 }

def hasWaiters (state : WaitedState Owner) : Bool :=
  0 < state.readersWaiting || 0 < state.writersWaiting

def isLocked (state : WaitedState Owner) : Bool := state.lock.isLocked || state.hasWaiters

def isExpired (state : WaitedState Owner) (nowMillis maxIdleMillis : Nat) : Bool :=
  !state.isLocked && !state.hasWaiters &&
    decide (maxIdleMillis < nowMillis - state.lastAccessed * 1000)

theorem try_acquire_holds {state : WaitedState Owner} {owner : Owner}
    {now : Nat} (consistent : state.lock.Consistent)
    (acquired : state.tryAcquire owner mode now = some next) :
    next.lock.Consistent ∧ ∀ other kind, next.lock.holds other kind =
      state.lock.holds other kind + if other = owner ∧ kind = mode then 1 else 0 := by
  unfold tryAcquire at acquired
  split at acquired
  · cases acquired
  · obtain ⟨lock, isLock, rfl⟩ := map_eq_some_iff.1 acquired
    exact ObjectLockState.try_acquire_holds consistent isLock

end WaitedState

/-- Where an acquirer is: the handles are indices of states. -/
inductive AcquirePhase
  | looking
  | cloned (handle : Nat)
  | failed (handle : Nat)
  | waiting (handle : Nat) (incremented : Bool)
  | holding (handle : Nat)
  | done
  deriving DecidableEq

structure Acquirer (Owner : Type) where
  owner : Owner
  mode : LockMode
  phase : AcquirePhase

def Acquirer.holds (acquirer : Acquirer Owner) : Bool :=
  match acquirer.phase with
  | .holding _ => true
  | _ => false

/-- The key's entry in the map, every state that was made for the key, and the acquirers. -/
structure Shared (Owner : Type) where
  entry : Option Nat
  states : List (WaitedState Owner)
  acquirers : List (Acquirer Owner)

inductive LockStep (Owner : Type)
  | start (owner : Owner) (mode : LockMode)
  /-- The lookup of the fast path, under the read or the write lock, and of the slow path. -/
  | lookUp (who : Nat)
  /-- The slow path puts a new state into the map and goes on with its handle. -/
  | insertFresh (who : Nat) (now : Nat)
  /-- The fast path of a writer takes a new state before it is put into the map. -/
  | insertTaken (who : Nat) (now : Nat)
  | swap (who : Nat) (now : Nat)
  | fail (who : Nat) (now : Nat)
  | giveUp (who : Nat)
  | wait (who : Nat)
  | wake (who : Nat)
  | release (who : Nat) (now : Nat)
  | sweep (nowMillis maxIdleMillis : Nat)

namespace Shared

def new : Shared Owner := ⟨none, [], []⟩

def move (shared : Shared Owner) (who : Nat) (acquirer : Acquirer Owner) (phase : AcquirePhase) :
    Shared Owner :=
  { shared with acquirers := shared.acquirers.set who { acquirer with phase := phase } }

def store (shared : Shared Owner) (handle : Nat) (state : WaitedState Owner) : Shared Owner :=
  { shared with states := shared.states.set handle state }

/-- A state that nobody else can see yet, in the map. -/
def insert (shared : Shared Owner) (state : WaitedState Owner) : Shared Owner :=
  { shared with entry := some shared.states.length, states := shared.states ++ [state] }

/-- The state that the map has is released, whichever state the acquirer took. -/
def releaseEntry (shared : Shared Owner) (owner : Owner) (mode : LockMode) (now : Nat) :
    Shared Owner :=
  match shared.entry with
  | none => shared
  | some handle =>
    match shared.states[handle]? with
    | none => shared
    | some state => shared.store handle (state.release owner mode now)

def swap (shared : Shared Owner) (who : Nat) (acquirer : Acquirer Owner) (now : Nat) :
    Option (Shared Owner) :=
  match acquirer.phase with
  | .cloned handle =>
    (shared.states[handle]?.bind fun state =>
      state.tryAcquire acquirer.owner acquirer.mode now).map fun state =>
        (shared.store handle state).move who acquirer (.holding handle)
  | _ => none

/-- An attempt that finds the lock taken only leaves its time. -/
def fail (shared : Shared Owner) (who : Nat) (acquirer : Acquirer Owner) (now : Nat) :
    Option (Shared Owner) :=
  match acquirer.phase with
  | .cloned handle => shared.states[handle]?.bind fun state =>
    if (state.tryAcquire acquirer.owner acquirer.mode now).isNone then
      some ((shared.store handle { state with lastAccessed := now }).move who acquirer
        (.failed handle))
    else none
  | _ => none

def wait (shared : Shared Owner) (who : Nat) (acquirer : Acquirer Owner) : Option (Shared Owner) :=
  match acquirer.phase with
  | .failed handle => shared.states[handle]?.map fun state =>
    (shared.store handle (state.incWaiting acquirer.mode).1).move who acquirer
      (.waiting handle (state.incWaiting acquirer.mode).2)
  | _ => none

def wake (shared : Shared Owner) (who : Nat) (acquirer : Acquirer Owner) : Option (Shared Owner) :=
  match acquirer.phase with
  | .waiting handle true => shared.states[handle]?.map fun state =>
    (shared.store handle (state.decWaiting acquirer.mode)).move who acquirer .looking
  | .waiting _ false => some (shared.move who acquirer .looking)
  | _ => none

def act (shared : Shared Owner) (who : Nat) (acquirer : Acquirer Owner) :
    LockStep Owner → Option (Shared Owner)
  | .lookUp _ =>
    if acquirer.phase = .looking then
      shared.entry.map fun handle => shared.move who acquirer (.cloned handle)
    else none
  | .insertFresh _ now =>
    if acquirer.phase = .looking ∧ shared.entry = none then
      some ((shared.insert (.new now)).move who acquirer (.cloned shared.states.length))
    else none
  | .insertTaken _ now =>
    if acquirer.phase = .looking ∧ shared.entry = none ∧ acquirer.mode = .exclusive then
      ((WaitedState.new now).tryAcquire acquirer.owner .exclusive now).map fun state =>
        (shared.insert state).move who acquirer (.holding shared.states.length)
    else none
  | .swap _ now => shared.swap who acquirer now
  | .fail _ now => shared.fail who acquirer now
  | .giveUp _ =>
    match acquirer.phase with
    | .failed _ => some (shared.move who acquirer .looking)
    | _ => none
  | .wait _ => shared.wait who acquirer
  | .wake _ => shared.wake who acquirer
  | .release _ now =>
    if acquirer.holds then
      some ((shared.releaseEntry acquirer.owner acquirer.mode now).move who acquirer .done)
    else none
  | .start _ _ => none
  | .sweep _ _ => none

def sweep (shared : Shared Owner) (nowMillis maxIdleMillis : Nat) : Shared Owner :=
  match shared.entry.bind fun handle => shared.states[handle]? with
  | none => shared
  | some state =>
    if state.isExpired nowMillis maxIdleMillis then { shared with entry := none } else shared

end Shared

def LockStep.who : LockStep Owner → Option Nat
  | .lookUp who | .insertFresh who _ | .insertTaken who _ | .swap who _ | .fail who _ | .giveUp who
  | .wait who | .wake who | .release who _ => some who
  | .start _ _ | .sweep _ _ => none

namespace Shared

def step (shared : Shared Owner) (next : LockStep Owner) : Option (Shared Owner) :=
  match next with
  | .start owner mode =>
    some { shared with acquirers := shared.acquirers ++ [⟨owner, mode, .looking⟩] }
  | .sweep nowMillis maxIdleMillis => some (shared.sweep nowMillis maxIdleMillis)
  | next => next.who.bind fun who => shared.acquirers[who]?.bind fun acquirer =>
    shared.act who acquirer next

def steps (shared : Shared Owner) : List (LockStep Owner) → Option (Shared Owner)
  | [] => some shared
  | next :: rest => (shared.step next).bind fun after => after.steps rest

/-- No acquirer holds the key exclusively next to another holder. The holds are those that the
acquirers believe to have, not those that the word counts. -/
def Excluding (shared : Shared Owner) : Prop :=
  ∀ (first second : Nat) (left right : Acquirer Owner), shared.acquirers[first]? = some left →
    shared.acquirers[second]? = some right → first ≠ second → left.holds = true →
    right.holds = true → left.mode = .shared ∧ right.mode = .shared

def granted (shared : Shared Owner) (owner : Owner) (mode : LockMode) : Nat :=
  shared.acquirers.countP fun acquirer =>
    acquirer.holds && decide (acquirer.owner = owner ∧ acquirer.mode = mode)

/-- The holds that the state of the map has. -/
def held (shared : Shared Owner) (owner : Owner) (mode : LockMode) : Nat :=
  (shared.entry.bind fun handle => shared.states[handle]?).elim 0 fun state =>
    state.lock.holds owner mode

/-- Every acquirer that uses a handle has the one of the map, and every hold is in its word. A
sweep between the clone and the swap is what breaks it. -/
structure Sound (shared : Shared Owner) : Prop where
  consistent : ∀ state ∈ shared.states, state.lock.Consistent
  inside : ∀ handle, shared.entry = some handle → handle < shared.states.length
  current : ∀ acquirer ∈ shared.acquirers, ∀ handle,
    acquirer.phase = .cloned handle ∨ acquirer.phase = .holding handle → shared.entry = some handle
  covered : ∀ owner mode, shared.granted owner mode ≤ shared.held owner mode

variable {acquirer : Acquirer Owner}

section Steps

variable {shared : Shared Owner} {who handle : Nat} {acquirer : Acquirer Owner} {phase : AcquirePhase}
  {state : WaitedState Owner}

theorem granted_move (isThere : shared.acquirers[who]? = some acquirer) (phase : AcquirePhase)
    (owner : Owner) (mode : LockMode) :
    (shared.move who acquirer phase).granted owner mode =
      shared.granted owner mode -
        (if acquirer.holds && decide (acquirer.owner = owner ∧ acquirer.mode = mode) then 1 else 0) +
        (if { acquirer with phase := phase : Acquirer Owner }.holds &&
          decide (acquirer.owner = owner ∧ acquirer.mode = mode) then 1 else 0) := by
  obtain ⟨inside, isAcquirer⟩ := List.getElem?_eq_some_iff.1 isThere
  unfold granted move
  dsimp only
  rw [countP_set inside, isAcquirer]

theorem granted_idle_move (isThere : shared.acquirers[who]? = some acquirer)
    (before : acquirer.holds = false)
    (after : { acquirer with phase := phase : Acquirer Owner }.holds = false) (owner : Owner)
    (mode : LockMode) :
    (shared.move who acquirer phase).granted owner mode = shared.granted owner mode := by
  rw [granted_move isThere, before, after]
  rfl

omit [DecidableEq Owner] in
theorem mem_move {moved : Acquirer Owner}
    (member : moved ∈ (shared.move who acquirer phase).acquirers) :
    moved ∈ shared.acquirers ∨ moved = { acquirer with phase := phase } :=
  mem_or_eq_of_mem_set member

theorem Sound.move (sound : shared.Sound) (isThere : shared.acquirers[who]? = some acquirer)
    (before : acquirer.holds = false)
    (after : { acquirer with phase := phase : Acquirer Owner }.holds = false)
    (known : ∀ handle, phase = .cloned handle → shared.entry = some handle) :
    (shared.move who acquirer phase).Sound where
  consistent := sound.consistent
  inside := sound.inside
  current := by
    intro moved member handle uses
    rcases mem_move member with old | rfl
    · exact sound.current moved old handle uses
    · rcases uses with isCloned | isHolding
      · exact known handle isCloned
      · unfold Acquirer.holds at after
        rw [isHolding] at after
        cases after
  covered := by
    intro owner mode
    rw [granted_idle_move isThere before after]
    exact sound.covered owner mode

theorem held_store (isThere : shared.states[handle]? = some state) (next : WaitedState Owner)
    (owner : Owner) (mode : LockMode) :
    (shared.store handle next).held owner mode =
      if shared.entry = some handle then next.lock.holds owner mode else shared.held owner mode := by
  obtain ⟨inside, _⟩ := List.getElem?_eq_some_iff.1 isThere
  unfold held store
  split
  · rename_i isEntry
    rw [isEntry, bind_some, getElem?_set_self inside]
    rfl
  · rename_i other
    cases isEntry : shared.entry with
    | none => rfl
    | some current =>
      have apart : handle ≠ current := fun same => other (isEntry.trans (congrArg some same.symm))
      rw [bind_some, bind_some, getElem?_set_ne apart]

theorem held_entry (isEntry : shared.entry = some handle)
    (isThere : shared.states[handle]? = some state) (owner : Owner) (mode : LockMode) :
    shared.held owner mode = state.lock.holds owner mode := by
  unfold held
  rw [isEntry, bind_some, isThere]
  rfl

theorem Sound.state_consistent (sound : shared.Sound) (isThere : shared.states[handle]? = some state) :
    state.lock.Consistent :=
  sound.consistent state (mem_of_getElem? isThere)

theorem Sound.store (sound : shared.Sound) (isThere : shared.states[handle]? = some state)
    (consistent : next.lock.Consistent) (kept : shared.entry = some handle → ∀ owner mode,
      shared.granted owner mode ≤ next.lock.holds owner mode) :
    (shared.store handle next).Sound where
  consistent := by
    intro other member
    rcases mem_or_eq_of_mem_set member with old | rfl
    · exact sound.consistent other old
    · exact consistent
  inside := by
    intro entry isEntry
    unfold Shared.store
    rw [length_set]
    exact sound.inside entry isEntry
  current := sound.current
  covered := by
    intro owner mode
    rw [held_store isThere]
    split
    · rename_i isEntry
      exact kept isEntry owner mode
    · exact sound.covered owner mode

theorem Sound.store_same_lock (sound : shared.Sound) (isThere : shared.states[handle]? = some state)
    (same : next.lock = state.lock) : (shared.store handle next).Sound := by
  apply sound.store isThere
  · rw [same]
    exact sound.state_consistent isThere
  · intro isEntry owner mode
    rw [same, ← held_entry isEntry isThere]
    exact sound.covered owner mode

theorem Sound.hold (sound : shared.Sound) (isThere : shared.acquirers[who]? = some acquirer)
    (before : acquirer.holds = false) (isEntry : shared.entry = some handle)
    (free : shared.granted acquirer.owner acquirer.mode < shared.held acquirer.owner acquirer.mode) :
    (shared.move who acquirer (.holding handle)).Sound where
  consistent := sound.consistent
  inside := sound.inside
  current := by
    intro moved member other uses
    rcases mem_move member with old | rfl
    · exact sound.current moved old other uses
    · rcases uses with isCloned | isHolding
      · cases isCloned
      · cases isHolding
        exact isEntry
  covered := by
    intro owner mode
    have covered := sound.covered owner mode
    have moved := granted_move isThere (.holding handle) owner mode
    have same : (shared.move who acquirer (.holding handle)).held owner mode =
        shared.held owner mode := rfl
    rw [moved, before, same, Bool.false_and, if_neg Bool.false_ne_true, Nat.sub_zero]
    by_cases isIts : acquirer.owner = owner ∧ acquirer.mode = mode
    · obtain ⟨rfl, rfl⟩ := isIts
      split
      · exact free
      · exact covered
    · simp [isIts, covered]

variable {next : Shared Owner} {now : Nat}

theorem swap_sound (sound : shared.Sound) (isThere : shared.acquirers[who]? = some acquirer)
    (swapped : shared.swap who acquirer now = some next) : next.Sound := by
  unfold swap at swapped
  split at swapped
  · rename_i handle isCloned
    obtain ⟨taken, acquired, rfl⟩ := map_eq_some_iff.1 swapped
    obtain ⟨state, isState, acquired⟩ := bind_eq_some_iff.1 acquired
    have isEntry := sound.current acquirer (mem_of_getElem? isThere) handle (.inl isCloned)
    have before : acquirer.holds = false := by
      unfold Acquirer.holds
      rw [isCloned]
    obtain ⟨consistent, counts⟩ :=
      WaitedState.try_acquire_holds (sound.state_consistent isState) acquired
    have covered : ∀ owner mode, shared.granted owner mode ≤ state.lock.holds owner mode := by
      intro owner mode
      rw [← held_entry isEntry isState]
      exact sound.covered owner mode
    have stored : (shared.store handle taken).Sound := by
      apply sound.store isState consistent
      intro _ owner mode
      rw [counts]
      exact Nat.le_trans (covered owner mode) (Nat.le_add_right _ _)
    apply stored.hold isThere before isEntry
    rw [held_store isState, if_pos isEntry, counts, if_pos ⟨rfl, rfl⟩]
    exact Nat.lt_succ_of_le (covered acquirer.owner acquirer.mode)
  · cases swapped

theorem quiet_release {handle : Nat} (isEntry : shared.entry = some handle)
    (isState : shared.states[handle]? = some state) :
    shared.releaseEntry acquirer.owner acquirer.mode now =
      shared.store handle (state.release acquirer.owner acquirer.mode now) := by
  unfold releaseEntry
  rw [isEntry]
  dsimp only
  rw [isState]

section

variable (sound : shared.Sound) (isThere : shared.acquirers[who]? = some acquirer)

include sound isThere

theorem release_sound (isHolding : acquirer.holds = true) :
    ((shared.releaseEntry acquirer.owner acquirer.mode now).move who acquirer .done).Sound := by
  have counted := granted_move isThere .done
  unfold Acquirer.holds at isHolding
  split at isHolding
  · rename_i handle isPhase
    have isEntry := sound.current acquirer (mem_of_getElem? isThere) handle (.inr isPhase)
    obtain ⟨state, isState⟩ : ∃ state, shared.states[handle]? = some state :=
      ⟨_, getElem?_eq_getElem (sound.inside handle isEntry)⟩
    have holding : acquirer.holds = true := by
      unfold Acquirer.holds
      rw [isPhase]
    have ended : { acquirer with phase := .done : Acquirer Owner }.holds = false := rfl
    have moved : (shared.move who acquirer .done).Sound := by
      refine ⟨sound.consistent, sound.inside, ?_, ?_⟩
      · intro other member handle uses
        rcases mem_move member with old | rfl
        · exact sound.current other old handle uses
        · rcases uses with isCloned | isHolding
          · cases isCloned
          · cases isHolding
      · intro owner mode
        rw [counted, ended, Bool.false_and, if_neg Bool.false_ne_true]
        exact Nat.le_trans (Nat.sub_le _ _) (sound.covered owner mode)
    obtain ⟨consistent, _, counts⟩ := ObjectLockState.release_holds
      (sound.state_consistent isState) acquirer.owner acquirer.mode
    have sameLock : (state.release acquirer.owner acquirer.mode now).lock =
        (state.lock.release acquirer.owner acquirer.mode).1 := by
      unfold WaitedState.release
      split
      all_goals rfl
    rw [quiet_release isEntry isState]
    refine moved.store isState ?_ ?_
    · rw [sameLock]
      exact consistent
    · intro _ owner mode
      have covered := sound.covered owner mode
      rw [held_entry isEntry isState] at covered
      rw [sameLock, counts, counted, ended, holding, Bool.false_and, if_neg Bool.false_ne_true,
        Bool.true_and]
      by_cases same : owner = acquirer.owner ∧ mode = acquirer.mode
      · obtain ⟨rfl, rfl⟩ := same
        simp only [and_self, decide_true, if_true]
        exact Nat.sub_le_sub_right covered 1
      · have other : ¬ (acquirer.owner = owner ∧ acquirer.mode = mode) :=
          fun isIts => same ⟨isIts.1.symm, isIts.2.symm⟩
        rw [if_neg same, decide_eq_false other, if_neg Bool.false_ne_true]
        exact covered
  · cases isHolding

theorem fail_sound (failed : shared.fail who acquirer now = some next) : next.Sound := by
  unfold fail at failed
  split at failed
  · rename_i handle isPhase
    obtain ⟨state, isState, failed⟩ := bind_eq_some_iff.1 failed
    split at failed
    · cases failed
      have before : acquirer.holds = false := by
        unfold Acquirer.holds
        rw [isPhase]
      refine Sound.move (sound.store_same_lock isState rfl) isThere before rfl ?_
      exact fun handle isCloned => by cases isCloned
    · cases failed
  · cases failed

theorem wait_sound (waited : shared.wait who acquirer = some next) : next.Sound := by
  unfold wait at waited
  split at waited
  · rename_i handle isPhase
    obtain ⟨state, isState, rfl⟩ := map_eq_some_iff.1 waited
    have before : acquirer.holds = false := by
      unfold Acquirer.holds
      rw [isPhase]
    have sameLock : (state.incWaiting acquirer.mode).1.lock = state.lock := by
      unfold WaitedState.incWaiting
      cases acquirer.mode with
      | shared | exclusive =>
        dsimp only
        split
        all_goals rfl
    refine Sound.move (sound.store_same_lock isState sameLock) isThere before rfl ?_
    exact fun handle isCloned => by cases isCloned
  · cases waited

theorem wake_sound (woken : shared.wake who acquirer = some next) : next.Sound := by
  have looking : ∀ handle, AcquirePhase.looking = .cloned handle → shared.entry = some handle :=
    fun handle isCloned => by cases isCloned
  unfold wake at woken
  split at woken
  · rename_i handle isPhase
    obtain ⟨state, isState, rfl⟩ := map_eq_some_iff.1 woken
    have before : acquirer.holds = false := by
      unfold Acquirer.holds
      rw [isPhase]
    have sameLock : (state.decWaiting acquirer.mode).lock = state.lock := by
      cases acquirer.mode with
      | shared => rfl
      | exclusive => rfl
    exact Sound.move (sound.store_same_lock isState sameLock) isThere before rfl looking
  · rename_i handle isPhase
    cases woken
    have before : acquirer.holds = false := by
      unfold Acquirer.holds
      rw [isPhase]
    exact sound.move isThere before rfl looking
  · cases woken

end

theorem Sound.nobody (sound : shared.Sound) (empty : shared.entry = none) :
    ∀ acquirer ∈ shared.acquirers, ∀ handle,
      acquirer.phase ≠ .cloned handle ∧ acquirer.phase ≠ .holding handle := by
  intro acquirer member handle
  constructor
  · intro isCloned
    have isEntry := sound.current acquirer member handle (.inl isCloned)
    rw [empty] at isEntry
    cases isEntry
  · intro isHolding
    have isEntry := sound.current acquirer member handle (.inr isHolding)
    rw [empty] at isEntry
    cases isEntry

theorem Sound.insert (sound : shared.Sound) (empty : shared.entry = none)
    (consistent : state.lock.Consistent) : (shared.insert state).Sound where
  consistent := by
    intro other member
    rcases mem_append.1 member with old | new
    · exact sound.consistent other old
    · rw [mem_singleton.1 new]
      exact consistent
  inside := by
    intro handle isEntry
    cases isEntry
    unfold Shared.insert
    rw [length_append]
    exact Nat.lt_succ_self _
  current := by
    intro acquirer member handle uses
    have nobody := sound.nobody empty acquirer member handle
    rcases uses with isCloned | isHolding
    · exact absurd isCloned nobody.1
    · exact absurd isHolding nobody.2
  covered := by
    intro owner mode
    have covered := sound.covered owner mode
    have nothing : shared.held owner mode = 0 := by
      unfold held
      rw [empty]
      rfl
    rw [nothing] at covered
    exact Nat.le_trans covered (Nat.zero_le _)

theorem Sound.insert_taken (sound : shared.Sound)
    (isThere : shared.acquirers[who]? = some acquirer) (before : acquirer.holds = false)
    (empty : shared.entry = none) (consistent : state.lock.Consistent)
    (taken : 0 < state.lock.holds acquirer.owner acquirer.mode) :
    ((shared.insert state).move who acquirer (.holding shared.states.length)).Sound := by
  have nobody : shared.granted acquirer.owner acquirer.mode = 0 := by
    have covered := sound.covered acquirer.owner acquirer.mode
    unfold held at covered
    rw [empty] at covered
    exact Nat.le_zero.1 covered
  have isLast : (shared.insert state).states[shared.states.length]? = some state :=
    getElem?_concat_length
  apply Sound.hold (sound.insert empty consistent) isThere before rfl
  rw [held_entry rfl isLast]
  change shared.granted acquirer.owner acquirer.mode < _
  rw [nobody]
  exact taken

theorem act_sound {shared next : Shared Owner} {who : Nat}
    {step : LockStep Owner} (sound : shared.Sound)
    (isThere : shared.acquirers[who]? = some acquirer)
    (done : shared.act who acquirer step = some next) : next.Sound := by
  have looking : ∀ handle, AcquirePhase.looking = .cloned handle → shared.entry = some handle :=
    fun handle isCloned => by cases isCloned
  cases step with
  | start owner mode => cases done
  | sweep nowMillis maxIdleMillis => cases done
  | swap _ now => exact swap_sound sound isThere done
  | fail _ now => exact fail_sound sound isThere done
  | wait _ => exact wait_sound sound isThere done
  | wake _ => exact wake_sound sound isThere done
  | release _ now =>
    unfold act at done
    dsimp only at done
    split at done
    · rename_i isHolding
      cases done
      exact release_sound sound isThere isHolding
    · cases done
  | giveUp _ =>
    unfold act at done
    dsimp only at done
    split at done
    · rename_i handle isPhase
      cases done
      have before : acquirer.holds = false := by
        unfold Acquirer.holds
        rw [isPhase]
      exact sound.move isThere before rfl looking
    · cases done
  | lookUp _ =>
    unfold act at done
    dsimp only at done
    split at done
    · rename_i isLooking
      obtain ⟨handle, isEntry, rfl⟩ := map_eq_some_iff.1 done
      have before : acquirer.holds = false := by
        unfold Acquirer.holds
        rw [isLooking]
      refine sound.move isThere before rfl ?_
      intro other isCloned
      cases isCloned
      exact isEntry
    · cases done
  | insertFresh _ now =>
    unfold act at done
    dsimp only at done
    split at done
    · rename_i isLooking
      cases done
      have before : acquirer.holds = false := by
        unfold Acquirer.holds
        rw [isLooking.1]
      refine Sound.move (sound.insert isLooking.2 ObjectLockState.new_consistent) isThere before
        rfl ?_
      intro other isCloned
      cases isCloned
      rfl
    · cases done
  | insertTaken _ now =>
    unfold act at done
    dsimp only at done
    split at done
    · rename_i isLooking
      obtain ⟨isLooking, empty, isWriter⟩ := isLooking
      obtain ⟨state, taken, rfl⟩ := map_eq_some_iff.1 done
      have before : acquirer.holds = false := by
        unfold Acquirer.holds
        rw [isLooking]
      obtain ⟨consistent, counts⟩ :=
        WaitedState.try_acquire_holds ObjectLockState.new_consistent taken
      apply sound.insert_taken isThere before empty consistent
      rw [counts, if_pos ⟨rfl, isWriter⟩]
      exact Nat.succ_pos _
    · cases done

end Steps

/-- A sweep that removes the state finds nobody between the clone of its handle and the
swap. -/
def Safe (shared : Shared Owner) : LockStep Owner → Prop
  | .sweep nowMillis maxIdleMillis => ∀ handle state, shared.entry = some handle →
      shared.states[handle]? = some state → state.isExpired nowMillis maxIdleMillis = true →
      ∀ acquirer ∈ shared.acquirers, acquirer.phase ≠ .cloned handle
  | _ => True

/-- Every step of the run is safe in the state that it is taken in. Only sweeps can be unsafe. -/
def SafeRun (shared : Shared Owner) : List (LockStep Owner) → Prop
  | [] => True
  | step :: rest => shared.Safe step ∧ ∀ next, shared.step step = some next → next.SafeRun rest

section Runs

variable {shared next : Shared Owner}

theorem new_sound : (new : Shared Owner).Sound where
  consistent := fun state member => by cases member
  inside := fun handle isEntry => by cases isEntry
  current := fun acquirer member => by cases member
  covered := fun _ _ => Nat.zero_le _

theorem sweep_sound {nowMillis maxIdleMillis : Nat} (sound : shared.Sound)
    (safe : shared.Safe (.sweep nowMillis maxIdleMillis)) :
    (shared.sweep nowMillis maxIdleMillis).Sound := by
  unfold sweep
  split
  · exact sound
  · rename_i state isState
    obtain ⟨handle, isEntry, isState⟩ := bind_eq_some_iff.1 isState
    split
    · rename_i expired
      have free : state.lock.isLocked = false := by
        unfold WaitedState.isExpired WaitedState.isLocked at expired
        simp only [Bool.and_eq_true, Bool.not_eq_true', Bool.or_eq_false_iff] at expired
        exact expired.1.1.1
      have nothing : ∀ owner mode, shared.granted owner mode = 0 := by
        intro owner mode
        have covered := sound.covered owner mode
        rw [held_entry isEntry isState, ObjectLockState.holds_of_free free] at covered
        exact Nat.le_zero.1 covered
      have emptied : Sound { shared with entry := none } :=
        { consistent := sound.consistent
          inside := fun handle isEntry => by cases isEntry
          current := by
            intro acquirer member other uses
            have same := sound.current acquirer member other uses
            rw [isEntry] at same
            cases same
            rcases uses with isCloned | isHolding
            · exact absurd isCloned (safe handle state isEntry isState expired acquirer member)
            · have counted := nothing acquirer.owner acquirer.mode
              unfold granted at counted
              rw [countP_eq_zero] at counted
              have notIts := counted acquirer member
              unfold Acquirer.holds at notIts
              rw [isHolding] at notIts
              simp at notIts
          covered := by
            intro owner mode
            change shared.granted owner mode ≤ _
            rw [nothing]
            exact Nat.zero_le _ }
      exact emptied
    · exact sound

theorem start_sound (sound : shared.Sound) (owner : Owner) (mode : LockMode) :
    Sound { shared with acquirers := shared.acquirers ++ [⟨owner, mode, .looking⟩] } where
  consistent := sound.consistent
  inside := sound.inside
  current := by
    intro acquirer member handle uses
    rcases mem_append.1 member with old | new
    · exact sound.current acquirer old handle uses
    · rw [mem_singleton.1 new] at uses
      rcases uses with isCloned | isHolding
      · cases isCloned
      · cases isHolding
  covered := by
    intro someone kind
    have covered := sound.covered someone kind
    unfold granted at covered ⊢
    rw [countP_append]
    exact covered

theorem step_sound {step : LockStep Owner} (sound : shared.Sound) (safe : shared.Safe step)
    (done : shared.step step = some next) : next.Sound := by
  have acts : ∀ who, (shared.acquirers[who]?.bind fun acquirer => shared.act who acquirer step) =
      some next → next.Sound := by
    intro who acted
    obtain ⟨acquirer, isThere, acted⟩ := bind_eq_some_iff.1 acted
    exact act_sound sound isThere acted
  cases step with
  | start owner mode =>
    cases done
    exact start_sound sound owner mode
  | sweep nowMillis maxIdleMillis =>
    cases done
    exact sweep_sound sound safe
  | lookUp who => exact acts who done
  | insertFresh who now => exact acts who done
  | insertTaken who now => exact acts who done
  | swap who now => exact acts who done
  | fail who now | giveUp who | wait who | wake who | release who now => exact acts who done

theorem steps_sound : ∀ (steps : List (LockStep Owner)) (shared next : Shared Owner),
    shared.Sound → shared.SafeRun steps → shared.steps steps = some next → next.Sound
  | [], _, _, sound, _, done => by
      cases done
      exact sound
  | step :: rest, shared, next, sound, safe, done => by
      obtain ⟨after, stepped, done⟩ := bind_eq_some_iff.1 done
      exact steps_sound rest after next (step_sound sound safe.1 stepped) (safe.2 after stepped) done

theorem two_granted {first second : Nat} {left right : Acquirer Owner}
    (isLeft : shared.acquirers[first]? = some left)
    (isRight : shared.acquirers[second]? = some right) (apart : first ≠ second)
    (leftHolds : left.holds = true) (rightHolds : right.holds = true)
    (sameOwner : right.owner = left.owner) (sameMode : right.mode = left.mode) :
    2 ≤ shared.granted left.owner left.mode := by
  have counted := granted_move isLeft .done left.owner left.mode
  have isStill : (shared.move first left .done).acquirers[second]? = some right := by
    unfold move
    dsimp only
    rw [getElem?_set_ne apart, isRight]
  have remaining : 0 < (shared.move first left .done).granted left.owner left.mode := by
    unfold granted
    rw [countP_pos_iff]
    exact ⟨right, mem_of_getElem? isStill, by simp [rightHolds, sameOwner, sameMode]⟩
  have ended : { left with phase := .done : Acquirer Owner }.holds = false := rfl
  rw [counted, ended, leftHolds] at remaining
  simp only [and_self, decide_true, Bool.true_and, if_true, Bool.false_and, Bool.false_eq_true,
    if_false] at remaining
  omega

theorem writer_is_alone {lock : ObjectLockState Owner} {owner other : Owner}
    (consistent : lock.Consistent) (writes : 0 < lock.holds owner .exclusive)
    (holds : 0 < lock.holds other mode) :
    mode = .exclusive ∧ other = owner ∧ lock.holds owner .exclusive ≤ 1 := by
  dsimp only [ObjectLockState.holds] at writes ⊢
  split at writes
  · rename_i isWriter
    rw [if_pos isWriter]
    cases mode with
    | shared =>
      have unshared := consistent.apart isWriter.1
      dsimp only [ObjectLockState.holds] at holds
      rw [unshared, Nat.min_zero] at holds
      cases holds
    | exclusive =>
      dsimp only [ObjectLockState.holds] at holds
      split at holds
      · rename_i isOther
        exact ⟨rfl, Option.some.inj (isOther.2.symm.trans isWriter.2), Nat.le_refl 1⟩
      · cases holds
  · cases writes

theorem Sound.hold_pos (sound : shared.Sound) {who : Nat}
    (isThere : shared.acquirers[who]? = some acquirer) (holding : acquirer.holds = true) :
    0 < shared.held acquirer.owner acquirer.mode := by
  refine Nat.lt_of_lt_of_le ?_ (sound.covered acquirer.owner acquirer.mode)
  unfold granted
  rw [countP_pos_iff]
  exact ⟨acquirer, mem_of_getElem? isThere, by simp [holding]⟩

theorem Sound.writer_excludes (sound : shared.Sound) {first second : Nat}
    {left right : Acquirer Owner} (isLeft : shared.acquirers[first]? = some left)
    (isRight : shared.acquirers[second]? = some right) (apart : first ≠ second)
    (leftHolds : left.holds = true) (rightHolds : right.holds = true) : left.mode = .shared := by
  cases isMode : left.mode with
  | shared => rfl
  | exclusive =>
    have writes := sound.hold_pos isLeft leftHolds
    have other := sound.hold_pos isRight rightHolds
    have covered := sound.covered left.owner left.mode
    have isState : ∃ handle state, shared.entry = some handle ∧
        shared.states[handle]? = some state := by
      unfold Acquirer.holds at leftHolds
      split at leftHolds
      · rename_i handle isPhase
        have isEntry := sound.current left (mem_of_getElem? isLeft) handle (.inr isPhase)
        exact ⟨handle, _, isEntry, getElem?_eq_getElem (sound.inside handle isEntry)⟩
      · cases leftHolds
    obtain ⟨handle, state, isEntry, isState⟩ := isState
    rw [held_entry isEntry isState] at writes other covered
    rw [isMode] at writes
    obtain ⟨sameMode, sameOwner, single⟩ :=
      writer_is_alone (sound.state_consistent isState) writes other
    have both := two_granted isLeft isRight apart leftHolds rightHolds sameOwner
      (sameMode.trans isMode.symm)
    rw [isMode] at both covered
    omega

theorem Sound.excluding (sound : shared.Sound) : shared.Excluding := by
  intro first second left right isLeft isRight apart leftHolds rightHolds
  exact ⟨sound.writer_excludes isLeft isRight apart leftHolds rightHolds,
    sound.writer_excludes isRight isLeft apart.symm rightHolds leftHolds⟩

/-- Acquirers exclude each other as long as no sweep takes away the state that one of them is
about to swap. Whether a sweep does is decided by where the acquirers stand when it looks at the
word. -/
theorem sweeps_keep_exclusion (steps : List (LockStep Owner))
    (safe : (new : Shared Owner).SafeRun steps) (done : (new : Shared Owner).steps steps = some shared) :
    shared.Excluding :=
  (steps_sound steps new shared new_sound safe done).excluding

end Runs

/-- A state that nobody uses is swept away between two writers. -/
def sweptRun : List (LockStep Nat) :=
  [.start 1 .exclusive, .insertTaken 0 10, .release 0 11, .sweep 72000 60000, .start 2 .exclusive,
    .insertTaken 1 73, .start 3 .shared, .lookUp 2, .fail 2 74]

theorem swept_run_excludes : ∃ shared : Shared Nat, new.steps sweptRun = some shared ∧
    shared.Excluding := by
  refine ⟨_, rfl, sweeps_keep_exclusion sweptRun ?_ rfl⟩
  refine ⟨trivial, fun _ started => ?_⟩
  cases started
  refine ⟨trivial, fun _ inserted => ?_⟩
  cases inserted
  refine ⟨trivial, fun _ released => ?_⟩
  cases released
  refine ⟨?_, fun _ swept => ?_⟩
  · intro handle state _ _ _ acquirer member
    cases mem_singleton.1 member
    intro isCloned
    cases isCloned
  · cases swept
    refine ⟨trivial, fun _ started => ?_⟩
    cases started
    refine ⟨trivial, fun _ inserted => ?_⟩
    refine ⟨trivial, fun _ started => ?_⟩
    refine ⟨trivial, fun _ found => ?_⟩
    exact ⟨trivial, fun _ _ => trivial⟩

/-- The second writer has the handle of the first one's state when the state is swept away; the
third one makes another state. -/
theorem swept_state_is_still_taken : ∃ shared : Shared Nat,
    new.steps [.start 1 .exclusive, .insertTaken 0 10, .release 0 11, .start 2 .exclusive, .lookUp 1,
      .sweep 72000 60000, .start 3 .exclusive, .insertTaken 2 73, .swap 1 73] = some shared ∧
    ¬ shared.Excluding := by
  refine ⟨_, rfl, fun excluding => ?_⟩
  have both := excluding 1 2 _ _ rfl rfl (by decide) rfl rfl
  cases both.1

end Shared

end Rustfs.Lock
