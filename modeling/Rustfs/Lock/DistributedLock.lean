import Rustfs.Library.Quorum
import Rustfs.Lock.QuorumAttempt
import Mathlib.Data.List.Nodup
import Mathlib.Data.List.Pairwise
import Mathlib.Logic.Function.Basic

/-!
# The guard of a distributed lock and its heartbeat

`LockLostSignal`, `DistributedLockGuard` and `run_heartbeat` of
`lock/src/distributed_lock.rs`. The heartbeat is a machine that stands between two
awaits, or between two readings of the clock; time may pass between any two of its
steps.

`lock/src/client/local.rs` for one resource: the leases a server has granted and not
dropped yet. A lease holds the lock of the server from its grant until it is released,
or reclaimed after its deadline; a lease past its deadline that nobody reclaimed still
holds the lock. Instants are natural numbers. One resource is modelled, since leases of
others are never looked at. Metrics and tracing are left out.
-/

namespace Rustfs.Lock

open List

structure LockLostSignal where
  lost : Bool
  validUntil : Option Nat

namespace LockLostSignal

def new : LockLostSignal := ⟨false, none⟩

def markLost (signal : LockLostSignal) : LockLostSignal := { signal with lost := true }

def expired (signal : LockLostSignal) (now : Nat) : Bool :=
  match signal.validUntil with
  | some current => current ≤ now
  | none => false

/-- A deadline that has passed is not moved any more. -/
def setValidUntil (signal : LockLostSignal) (now validUntil : Nat) : LockLostSignal :=
  if signal.lost then signal
  else if signal.expired now then signal.markLost
  else { signal with validUntil := some validUntil }

def isLost (signal : LockLostSignal) (now : Nat) : Bool := signal.lost || signal.expired now

/-- What a call of `is_lost` leaves behind. -/
def checked (signal : LockLostSignal) (now : Nat) : LockLostSignal :=
  if signal.isLost now then signal.markLost else signal

end LockLostSignal

section Heartbeat

variable {Id : Type}

def quorumValidUntil (entries : List (HeldLockEntry Id)) (refreshQuorum : Nat) : Option Nat :=
  if refreshQuorum = 0 ∨ entries.length < refreshQuorum then none
  else
    let deadlines := (entries.map HeldLockEntry.validUntil).insertionSort (· ≤ ·)
    deadlines[deadlines.length - refreshQuorum]?

def deriveRefreshInterval (entriesLen ttl : Nat) (injected : Option Nat) : Option Nat :=
  if entriesLen = 0 then none
  else
    let interval := injected.getD (ttl / 3)
    if interval = 0 ∨ ttl ≤ interval then none else some interval

inductive Phase
  /-- The head of the loop. -/
  | started
  /-- Waits for the tick, at most until the deadline. -/
  | ticking (validUntil : Nat)
  /-- The calls to the entries before an index are under way. -/
  | refreshing (index : Nat)
  /-- The head of the loop over the answers. -/
  | collecting
  /-- Waits for an answer, at most until the deadline. -/
  | awaiting (validUntil : Nat)
  | stopped

/-- The pending calls are the index of the entry and the instant they were started. -/
structure Heartbeat (Id : Type) where
  entries : List (HeldLockEntry Id)
  pending : List (Nat × Nat)
  phase : Phase

inductive Beat
  | proceed
  | tick
  | deadline
  /-- The answer to a call; none is an error. -/
  | answer (index refreshStarted : Nat) (found : Option Bool)

namespace Heartbeat

def new (entries : List (HeldLockEntry Id)) : Heartbeat Id := ⟨entries, [], .started⟩

/-- The deadline of the quorum is passed on, and waited for. -/
def publish (task : Heartbeat Id) (refreshQuorum now : Nat) (lockLost : LockLostSignal)
    (wait : Nat → Phase) : Heartbeat Id × LockLostSignal :=
  match quorumValidUntil task.entries refreshQuorum with
  | none => ({ task with phase := .stopped }, lockLost.markLost)
  | some validUntil =>
    ({ task with phase := wait validUntil }, lockLost.setValidUntil now validUntil)

def answered (ttl now refreshStarted : Nat) (entry : HeldLockEntry Id) :
    Option Bool → HeldLockEntry Id
  | some true => { entry with validUntil := refreshStarted + ttl }
  | some false => { entry with validUntil := now }
  | none => entry

def step (refreshQuorum ttl now : Nat) (task : Heartbeat Id) (lockLost : LockLostSignal) :
    Beat → Option (Heartbeat Id × LockLostSignal)
  | .proceed =>
    match task.phase with
    | .started => some (task.publish refreshQuorum now lockLost .ticking)
    | .refreshing index =>
      if index < task.entries.length then
        some ({ task with
          pending := task.pending ++ [(index, now)]
          phase := .refreshing (index + 1) }, lockLost)
      else some ({ task with phase := .collecting }, lockLost)
    | .collecting =>
      if task.pending.isEmpty then some ({ task with phase := .started }, lockLost)
      else some (task.publish refreshQuorum now lockLost .awaiting)
    | _ => none
  | .tick =>
    match task.phase with
    | .ticking _ => some ({ task with phase := .refreshing 0 }, lockLost)
    | _ => none
  | .deadline =>
    match task.phase with
    | .ticking validUntil | .awaiting validUntil =>
      if validUntil ≤ now then some ({ task with phase := .stopped }, lockLost.markLost) else none
    | _ => none
  | .answer index refreshStarted found =>
    match task.phase with
    | .awaiting _ =>
      if (index, refreshStarted) ∈ task.pending then
        some ({
          entries := task.entries.modify index fun entry =>
            answered ttl now refreshStarted entry found
          pending := task.pending.erase (index, refreshStarted)
          phase := .collecting }, lockLost)
      else none
    | _ => none

end Heartbeat

/-- `released` is set when the entries are handed to a release task. -/
structure DistributedLockGuard (Id : Type) where
  entries : List (HeldLockEntry Id)
  disarmed : Bool
  released : Bool
  refreshTask : Option (Heartbeat Id)
  lockLost : LockLostSignal

namespace DistributedLockGuard

def new (entries : List (HeldLockEntry Id)) (refreshQuorum now : Nat) (interval : Option Nat) :
    DistributedLockGuard Id where
  entries := entries
  disarmed := false
  released := false
  refreshTask := interval.map fun _ => Heartbeat.new entries
  lockLost :=
    match quorumValidUntil entries refreshQuorum with
    | some validUntil => LockLostSignal.new.setValidUntil now validUntil
    | none => LockLostSignal.new.markLost

def stopHeartbeat (guard : DistributedLockGuard Id) : DistributedLockGuard Id :=
  { guard with refreshTask := none }

def disarm (guard : DistributedLockGuard Id) : DistributedLockGuard Id :=
  { guard.stopHeartbeat with disarmed := true }

/-- Also what dropping the guard does. -/
def release (guard : DistributedLockGuard Id) : DistributedLockGuard Id :=
  if guard.disarmed then guard.stopHeartbeat
  else { guard.stopHeartbeat with disarmed := true, released := true }

end DistributedLockGuard

namespace Heartbeat

variable {refreshQuorum ttl now : Nat} {task next : Heartbeat Id} {lockLost after : LockLostSignal}
  {beat : Beat}

/-- A step that leaves the entries: it may start a call, and pass the deadline of their
quorum on. -/
structure Keeps (refreshQuorum now : Nat) (task next : Heartbeat Id)
    (lockLost after : LockLostSignal) : Prop where
  entries : next.entries = task.entries
  pending : ∀ call ∈ next.pending, call ∈ task.pending ∨ call.2 = now
  signal : after = lockLost ∨ after = lockLost.markLost ∨
    ∃ validUntil, quorumValidUntil task.entries refreshQuorum = some validUntil ∧
      after = lockLost.setValidUntil now validUntil

theorem publish_keeps {wait : Nat → Phase}
    (isNext : task.publish refreshQuorum now lockLost wait = (next, after)) :
    Keeps refreshQuorum now task next lockLost after := by
  unfold publish at isNext
  cases reached : quorumValidUntil task.entries refreshQuorum with
  | none =>
    rw [reached] at isNext
    cases isNext
    exact ⟨rfl, fun call member => .inl member, .inr (.inl rfl)⟩
  | some validUntil =>
    rw [reached] at isNext
    cases isNext
    exact ⟨rfl, fun call member => .inl member, .inr (.inr ⟨validUntil, reached, rfl⟩)⟩

theorem proceed_keeps
    (stepped : task.step refreshQuorum ttl now lockLost .proceed = some (next, after)) :
    Keeps refreshQuorum now task next lockLost after := by
  dsimp only [step] at stepped
  split at stepped
  · exact publish_keeps (Option.some.inj stepped)
  · split at stepped
    · cases stepped
      refine ⟨rfl, ?_, .inl rfl⟩
      intro call member
      rcases mem_append.1 member with earlier | new
      · exact .inl earlier
      · exact .inr (by rw [mem_singleton.1 new])
    · cases stepped
      exact ⟨rfl, fun call member => .inl member, .inl rfl⟩
  · split at stepped
    · cases stepped
      exact ⟨rfl, fun call member => .inl member, .inl rfl⟩
    · exact publish_keeps (Option.some.inj stepped)
  · cases stepped

theorem step_cases (stepped : task.step refreshQuorum ttl now lockLost beat = some (next, after)) :
    Keeps refreshQuorum now task next lockLost after ∨
    ∃ index refreshStarted found, beat = .answer index refreshStarted found ∧
      (index, refreshStarted) ∈ task.pending ∧ after = lockLost ∧
      next.pending ⊆ task.pending ∧
      next.entries = task.entries.modify index fun entry =>
        answered ttl now refreshStarted entry found := by
  cases beat with
  | proceed => exact .inl (proceed_keeps stepped)
  | tick =>
    refine .inl ?_
    dsimp only [step] at stepped
    split at stepped
    · cases stepped
      exact ⟨rfl, fun call member => .inl member, .inl rfl⟩
    · cases stepped
  | deadline =>
    refine .inl ?_
    dsimp only [step] at stepped
    split at stepped
    · split at stepped
      · cases stepped
        exact ⟨rfl, fun call member => .inl member, .inr (.inl rfl)⟩
      · cases stepped
    · split at stepped
      · cases stepped
        exact ⟨rfl, fun call member => .inl member, .inr (.inl rfl)⟩
      · cases stepped
    · cases stepped
  | answer index refreshStarted found =>
    refine .inr ⟨index, refreshStarted, found, rfl, ?_⟩
    dsimp only [step] at stepped
    split at stepped
    · split at stepped
      · rename_i pending
        cases stepped
        exact ⟨pending, rfl, erase_subset, rfl⟩
      · cases stepped
    · cases stepped

end Heartbeat

theorem quorum_valid_until_reached {entries : List (HeldLockEntry Id)} {refreshQuorum validUntil : Nat}
    (reached : quorumValidUntil entries refreshQuorum = some validUntil) :
    refreshQuorum ≤ (entries.filter fun entry => decide (validUntil ≤ entry.validUntil)).length := by
  unfold quorumValidUntil at reached
  split at reached
  · cases reached
  · rename_i enough
    push Not at enough
    dsimp only at reached
    rw [length_insertionSort] at reached
    have counted := Library.Quorum.quorum_le_count_of_order_statistic
      (entries.map HeldLockEntry.validUntil) refreshQuorum validUntil (by simpa using enough.2) reached
    rw [countP_map] at counted
    rw [← countP_eq_length_filter]
    exact counted

theorem answered_release_entry (ttl now refreshStarted : Nat) (entry : HeldLockEntry Id)
    (found : Option Bool) :
    (Heartbeat.answered ttl now refreshStarted entry found).releaseEntry = entry.releaseEntry := by
  cases found with
  | none => rfl
  | some known =>
    cases known with
    | true => rfl
    | false => rfl

end Heartbeat

inductive LockType
  | shared
  | exclusive
  deriving DecidableEq

structure LocalGuardEntry (Id : Type) where
  lockId : Id
  lockType : LockType
  ttl : Nat
  deadline : Nat

namespace LocalGuardEntry

variable {Id : Type}

def new (lockId : Id) (lockType : LockType) (ttl now : Nat) : LocalGuardEntry Id :=
  ⟨lockId, lockType, ttl, now + ttl⟩

def isExpired (entry : LocalGuardEntry Id) (now : Nat) : Bool := entry.deadline ≤ now

def refresh (entry : LocalGuardEntry Id) (now : Nat) : LocalGuardEntry Id :=
  { entry with deadline := now + entry.ttl }

/-- Readers share, a writer shares with nobody. -/
def Compatible (left right : LocalGuardEntry Id) : Prop :=
  left.lockType = .shared ∧ right.lockType = .shared

end LocalGuardEntry

/-- The leases of the resource by lock id. -/
structure LocalClient (Id : Type) where
  guards : List (LocalGuardEntry Id)
  distinct : (guards.map LocalGuardEntry.lockId).Nodup
  compatible : guards.Pairwise LocalGuardEntry.Compatible

namespace LocalClient

variable {Id : Type} {client next : LocalClient Id} {entry : LocalGuardEntry Id} {lockId : Id}
  {now : Nat} {other : LocalGuardEntry Id}

def new : LocalClient Id := ⟨[], List.nodup_nil, List.Pairwise.nil⟩

def keep (client : LocalClient Id) (stays : LocalGuardEntry Id → Bool) : LocalClient Id where
  guards := client.guards.filter stays
  distinct := client.distinct.sublist (List.filter_sublist.map _)
  compatible := client.compatible.sublist List.filter_sublist

theorem mem_keep {stays : LocalGuardEntry Id → Bool} :
    entry ∈ (client.keep stays).guards ↔ entry ∈ client.guards ∧ stays entry = true :=
  mem_filter

theorem eq_of_same_id (member : entry ∈ client.guards)
    (isOther : other ∈ client.guards) (same : entry.lockId = other.lockId) : entry = other :=
  inj_on_of_nodup_map client.distinct member isOther same

theorem shared_of_two (member : entry ∈ client.guards)
    (isOther : other ∈ client.guards) (different : entry.lockId ≠ other.lockId) :
    entry.lockType = .shared ∧ other.lockType = .shared := by
  have symmetric : Std.Symm (@LocalGuardEntry.Compatible Id) := ⟨fun _ _ both => ⟨both.2, both.1⟩⟩
  refine client.compatible.forall member isOther ?_
  intro same
  exact different (congrArg LocalGuardEntry.lockId same)

def reclaimExpiredGuards (client : LocalClient Id) (now : Nat) : LocalClient Id :=
  client.keep fun entry => !entry.isExpired now

variable [DecidableEq Id]

def release (client : LocalClient Id) (lockId : Id) : LocalClient Id :=
  client.keep fun entry => entry.lockId ≠ lockId

/-- Whether the lock of the server can be had next to all that hold it. -/
def isFree (client : LocalClient Id) (lockType : LockType) : Prop :=
  ∀ entry ∈ client.guards, entry.lockType = .shared ∧ lockType = .shared

instance (client : LocalClient Id) (lockType : LockType) : Decidable (client.isFree lockType) :=
  inferInstanceAs (Decidable (∀ entry ∈ client.guards, _))

/-- The entry of a grant, in the place of one with the same id. -/
def insert (client : LocalClient Id) (entry : LocalGuardEntry Id)
    (free : client.isFree entry.lockType) : LocalClient Id where
  guards := entry :: (client.release entry.lockId).guards
  distinct := by
    rw [List.map_cons, List.nodup_cons]
    refine ⟨?_, (client.release entry.lockId).distinct⟩
    intro member
    obtain ⟨other, isOther, same⟩ := List.mem_map.1 member
    exact of_decide_eq_true (List.mem_filter.1 isOther).2 same
  compatible := by
    rw [List.pairwise_cons]
    refine ⟨?_, (client.release entry.lockId).compatible⟩
    intro other member
    exact (free other (List.mem_filter.1 member).1).symm

/-- The grant of a request. One that finds the lock taken waits, or is refused. -/
def acquireLock (client : LocalClient Id) (lockId : Id) (lockType : LockType) (ttl now : Nat) :
    Option (LocalClient Id) :=
  if free : client.isFree lockType then
    some (client.insert (.new lockId lockType ttl now) free)
  else none

/-- The lease with an id, with a new deadline. -/
def extend (client : LocalClient Id) (lockId : Id) (now : Nat) : LocalClient Id where
  guards := client.guards.map fun entry => if entry.lockId = lockId then entry.refresh now else entry
  distinct := by
    have sameIds : (client.guards.map fun entry =>
        if entry.lockId = lockId then entry.refresh now else entry).map LocalGuardEntry.lockId =
          client.guards.map LocalGuardEntry.lockId := by
      rw [List.map_map]
      apply List.map_congr_left
      intro entry _
      dsimp only [Function.comp]
      split
      all_goals rfl
    rw [sameIds]
    exact client.distinct
  compatible := by
    rw [List.pairwise_map]
    refine client.compatible.imp ?_
    intro left right
    dsimp only [LocalGuardEntry.Compatible]
    split
    all_goals
      split
      · exact id
      · exact id

/-- The answer says whether the lease is still there. -/
def refresh (client : LocalClient Id) (lockId : Id) (now : Nat) : LocalClient Id × Bool :=
  match client.guards.find? fun entry => entry.lockId = lockId with
  | none => (client, false)
  | some entry =>
    if entry.isExpired now then (client.release lockId, false) else (client.extend lockId now, true)

theorem acquire_lock_cases {lockType : LockType} {ttl : Nat}
    (granted : client.acquireLock lockId lockType ttl now = some next) :
    next.guards = .new lockId lockType ttl now :: (client.release lockId).guards := by
  unfold acquireLock at granted
  split at granted
  · cases granted
    rfl
  · cases granted

/-- A refresh that finds the lease extends it; another one leaves the leases that are in
force. -/
theorem refresh_cases (client : LocalClient Id) (lockId : Id) (now : Nat) :
    ((client.refresh lockId now).2 = true ∧ (client.refresh lockId now).1 = client.extend lockId now ∧
      ∃ entry ∈ client.guards, entry.lockId = lockId) ∨
    ((client.refresh lockId now).2 = false ∧
      ((client.refresh lockId now).1 = client ∨
        (client.refresh lockId now).1 = client.release lockId ∧
          ∀ entry ∈ client.guards, entry.lockId = lockId → entry.isExpired now = true)) := by
  unfold refresh
  cases found : client.guards.find? fun entry => entry.lockId = lockId with
  | none => exact .inr ⟨rfl, .inl rfl⟩
  | some entry =>
    have member := mem_of_find?_eq_some found
    have isLock : entry.lockId = lockId := by simpa using find?_some found
    dsimp only
    split
    · rename_i expired
      refine .inr ⟨rfl, .inr ⟨rfl, ?_⟩⟩
      intro other isOther same
      rw [eq_of_same_id isOther member (same.trans isLock.symm)]
      exact expired
    · exact .inl ⟨rfl, rfl, entry, member, isLock⟩

end LocalClient

structure DistributedLock where
  clients : Nat
  quorum : Nat

namespace DistributedLock

def newShared (clients quorum : Nat) : DistributedLock where
  clients := clients
  quorum := if clients ≤ 1 then 1 else max 1 (min quorum clients)

def readQuorum (lock : DistributedLock) : Nat :=
  if lock.clients ≤ 1 then 1 else lock.clients - lock.clients / 2

def requiredQuorum (lock : DistributedLock) : LockType → Nat
  | .shared => lock.readQuorum
  | .exclusive => lock.quorum

end DistributedLock

inductive Message
  | acquire (lockId server : Nat) (lockType : LockType) (ttl : Nat)
  | granted (lockId server : Nat)
  | refresh (lockId server refreshStarted : Nat)
  | refreshed (lockId server refreshStarted : Nat) (found : Bool)
  | release (lockId server : Nat)
  deriving DecidableEq

/-- An attempt for the lock, and the guard of its success. -/
structure Session where
  lockType : LockType
  ttl : Nat
  refreshInterval : Option Nat
  run : Run Nat
  guard : Option (DistributedLockGuard Nat)

inductive Action
  | granted (server : Nat)
  /-- Refusals, errors and time-outs of a request. -/
  | failed (server : Nat) (reply : Reply Nat)
  | timeout
  /-- The guard of a successful attempt is made. -/
  | acquired
  | beat (beat : Beat)
  | isLost
  | disarm
  | release

namespace Session

def ofRun (session : Session) (run : Option (Run Nat)) : Option Session :=
  run.map fun run => { session with run := run }

def acquireGuard (lock : DistributedLock) (now : Nat) (session : Session) : Option Session :=
  match session.guard, session.run.result with
  | none, some result =>
    if result.success then
      some { session with
        guard := some (.new result.individualLocks (lock.requiredQuorum session.lockType) now
          (deriveRefreshInterval result.individualLocks.length session.ttl
            session.refreshInterval)) }
    else none
  | _, _ => none

def runHeartbeat (lock : DistributedLock) (now : Nat) (session : Session) (beat : Beat) :
    Option Session := do
  let guard ← session.guard
  let task ← guard.refreshTask
  let (task, lockLost) ← task.step (lock.requiredQuorum session.lockType) session.ttl now
    guard.lockLost beat
  some { session with guard := some { guard with refreshTask := some task, lockLost := lockLost } }

def onGuard (session : Session) (change : DistributedLockGuard Nat → DistributedLockGuard Nat) :
    Option Session :=
  session.guard.map fun guard => { session with guard := some (change guard) }

def step (lock : DistributedLock) (now lockId : Nat) (session : Session) : Action → Option Session
  | .granted server => session.ofRun (session.run.step (.reply server (.grant (some lockId))))
  | .failed _ (.grant _) => none
  | .failed server reply => session.ofRun (session.run.step (.reply server reply))
  | .timeout => session.ofRun (session.run.step .deadline)
  | .acquired => session.acquireGuard lock now
  | .beat beat => session.runHeartbeat lock now beat
  | .isLost => session.onGuard fun guard => { guard with lockLost := guard.lockLost.checked now }
  | .disarm => session.onGuard DistributedLockGuard.disarm
  | .release => session.onGuard DistributedLockGuard.release

def receives (session : Session) (lockId : Nat) : Action → Option Message
  | .granted server => some (.granted lockId server)
  | .beat (.answer index refreshStarted (some found)) => do
      let guard ← session.guard
      let task ← guard.refreshTask
      let entry ← task.entries[index]?
      some (.refreshed entry.lockId entry.client refreshStarted found)
  | _ => none

/-- The refresh calls under way: lock id, server and the instant of the start. -/
def refreshCalls (session : Session) : List (Nat × Nat × Nat) :=
  match session.guard.bind DistributedLockGuard.refreshTask with
  | some task => task.pending.filterMap fun call =>
    task.entries[call.1]?.map fun entry => (entry.lockId, entry.client, call.2)
  | none => []

def released (session : Session) : List (Nat × Nat) :=
  session.run.released ++
    match session.guard with
    | some guard => if guard.released then guard.entries.map HeldLockEntry.releaseEntry else []
    | none => []

/-- The messages the tasks of a session may send; a release is sent until it succeeds. -/
def Sends (session : Session) (lockId : Nat) : Message → Prop
  | .acquire requested server lockType ttl =>
    requested = lockId ∧ server ∈ session.run.attempt.pending ∧ lockType = session.lockType ∧
      ttl = session.ttl
  | .refresh held server refreshStarted => (held, server, refreshStarted) ∈ session.refreshCalls
  | .release held server => (held, server) ∈ session.released
  | .granted .. => False
  | .refreshed .. => False

instance (session : Session) (lockId : Nat) : DecidablePred (session.Sends lockId) := fun message =>
  match message with
  | .acquire .. => inferInstanceAs (Decidable (_ ∧ _ ∧ _ ∧ _))
  | .refresh .. => inferInstanceAs (Decidable (_ ∈ _))
  | .release .. => inferInstanceAs (Decidable (_ ∈ _))
  | .granted .. => inferInstanceAs (Decidable False)
  | .refreshed .. => inferInstanceAs (Decidable False)

end Session

structure System where
  lock : DistributedLock
  now : Nat
  servers : Nat → LocalClient Nat
  sessions : List Session
  sent : List Message

inductive SystemEvent
  | advance (duration : Nat)
  | start (lockType : LockType) (ttl : Nat) (refreshInterval : Option Nat)
  | act (lockId : Nat) (action : Action)
  | send (lockId : Nat) (message : Message)
  | serve (message : Message)
  /-- A server drops the leases past their deadline. -/
  | reclaim (server : Nat)

namespace System

def new (lock : DistributedLock) : System := ⟨lock, 0, fun _ => .new, [], []⟩

def served (system : System) (server : Nat) (client : LocalClient Nat) (answer : List Message) :
    System :=
  { system with
    servers := Function.update system.servers server client
    sent := answer ++ system.sent }

def serve (system : System) : Message → Option System
  | .acquire lockId server lockType ttl =>
    ((system.servers server).acquireLock lockId lockType ttl system.now).map fun client =>
      system.served server client [.granted lockId server]
  | .refresh lockId server refreshStarted =>
    let (client, found) := (system.servers server).refresh lockId system.now
    some (system.served server client [.refreshed lockId server refreshStarted found])
  | .release lockId server => some (system.served server ((system.servers server).release lockId) [])
  | _ => none

/-- The attempt starts now; its requests are sent later. -/
def newSession (system : System) (lockType : LockType) (ttl : Nat) (refreshInterval : Option Nat) :
    Session where
  lockType := lockType
  ttl := ttl
  refreshInterval := refreshInterval
  run := .start system.lock.clients (system.lock.requiredQuorum lockType) system.sessions.length
    (system.now + ttl)
  guard := none

def step (system : System) : SystemEvent → Option System
  | .advance duration => some { system with now := system.now + duration }
  | .start lockType ttl refreshInterval =>
    if system.lock.clients = 0 then none
    else some { system with
      sessions := system.sessions ++ [system.newSession lockType ttl refreshInterval] }
  | .act lockId action => do
      let session ← system.sessions[lockId]?
      if ∀ message ∈ session.receives lockId action, message ∈ system.sent then
        let next ← session.step system.lock system.now lockId action
        some { system with sessions := system.sessions.set lockId next }
      else none
  | .send lockId message => do
      let session ← system.sessions[lockId]?
      if session.Sends lockId message then some { system with sent := message :: system.sent }
      else none
  | .serve message => if message ∈ system.sent then system.serve message else none
  | .reclaim server =>
    some (system.served server ((system.servers server).reclaimExpiredGuards system.now) [])

def steps (system : System) : List SystemEvent → Option System
  | [] => some system
  | event :: rest => (system.step event).bind fun next => next.steps rest

end System

end Rustfs.Lock
