import Rustfs.Lock.DistributedLock

/-!
# What the deadlines of the guards rest on

A deadline that a session relies on is backed by a server: the server has a lease of
the session that lasts at least as long. The step and run lemmas say that this is so in
every reachable state of the system.
-/

namespace Rustfs.Lock

open List

section Attempts

variable {Id : Type} {run next : Run Id} {granted : List (Id × Nat)} {event : Event Id}
  {attempt : Attempt Id}

/-- Every entry is valid for the time to live of the attempt. -/
structure Run.Dated (run : Run Id) : Prop where
  held : ∀ entry ∈ run.attempt.individualLocks, entry.validUntil = run.attempt.validUntil
  kept : ∀ result, run.result = some result → ∀ entry ∈ result.individualLocks,
    entry.validUntil = run.attempt.validUntil

theorem Run.Accounts.released_subset (accounts : run.Accounts granted) : run.released ⊆ granted := by
  cases outcome : run.result with
  | none =>
    rw [(accounts.held outcome).2]
    exact nil_subset _
  | some result =>
    cases success : result.success with
    | true =>
      rw [← (accounts.succeeded result outcome success).2]
      exact subset_append_right _ _
    | false => rw [accounts.failed result outcome success]; exact List.Subset.refl _

theorem Run.step_released (accounts : run.Accounts granted) (stepped : run.step event = some next) :
    run.released ⊆ next.released := by
  rcases Run.step_cases stepped with ⟨_, running, _⟩ | ⟨_, _, _, _, running, _⟩ |
      ⟨_, _, _, _, _, _, rfl⟩
  · rw [(accounts.held running).2]
    exact nil_subset _
  · rw [(accounts.held running).2]
    exact nil_subset _
  · exact subset_append_left _ _

theorem Run.step_result {result : LockAcquireQuorumResult Id} (returned : run.result = some result)
    (stepped : run.step event = some next) : next.result = some result := by
  rcases Run.step_cases stepped with ⟨_, running, _⟩ | ⟨_, _, _, _, running, _⟩ |
      ⟨_, _, _, _, _, _, rfl⟩
  · rw [running] at returned
    cases returned
  · rw [running] at returned
    cases returned
  · exact returned

theorem Attempt.rollback_dated {entries : List (HeldLockEntry Id)}
    {error : String} {kind : LockAcquireFailureKind} {impossible : Bool}
    (held : ∀ entry ∈ attempt.individualLocks, entry.validUntil = attempt.validUntil)
    (given : entries ⊆ attempt.individualLocks) :
    (attempt.rollback entries error kind impossible).Dated where
  held := held
  kept := fun result returned entry member => by
    cases returned
    exact held entry (given member)

theorem Attempt.waiting_dated
    (held : ∀ entry ∈ attempt.individualLocks, entry.validUntil = attempt.validUntil) :
    attempt.waiting.Dated := by
  unfold waiting
  split
  · exact rollback_dated held (List.Subset.refl _)
  · exact ⟨held, fun result returned => by cases returned⟩

theorem Attempt.spawn_dated (target : Nat)
    (held : ∀ entry ∈ attempt.individualLocks, entry.validUntil = attempt.validUntil) :
    ∀ entry ∈ (attempt.spawnLockRequestsUntil target).individualLocks,
      entry.validUntil = (attempt.spawnLockRequestsUntil target).validUntil := by
  unfold spawnLockRequestsUntil
  rw [spawn_held, (spawn_request target target attempt).validUntil]
  exact held

theorem Attempt.after_reply_dated
    (held : ∀ entry ∈ attempt.individualLocks, entry.validUntil = attempt.validUntil) :
    attempt.afterReply.Dated := by
  unfold afterReply
  split
  · exact rollback_dated held (List.Subset.refl _)
  split
  · refine ⟨held, ?_⟩
    intro result returned entry member
    cases returned
    exact held entry member
  dsimp only
  split
  · unfold impossibleExit
    split
    all_goals exact rollback_dated (spawn_dated _ held) (List.Subset.refl _)
  · exact waiting_dated (spawn_dated _ held)

theorem Attempt.timeout_dated
    (held : ∀ entry ∈ attempt.individualLocks, entry.validUntil = attempt.validUntil) :
    attempt.timeoutExit.Dated := by
  unfold timeoutExit
  split
  · exact rollback_dated held (List.Subset.refl _)
  · exact rollback_dated held (List.Subset.refl _)
  · exact rollback_dated held (nil_subset _)

theorem Attempt.record_dated (client : Nat) (reply : Reply Id)
    (held : ∀ entry ∈ attempt.individualLocks, entry.validUntil = attempt.validUntil) :
    ∀ entry ∈ (attempt.record client reply).individualLocks,
      entry.validUntil = (attempt.record client reply).validUntil := by
  cases reply with
  | grant lockId =>
    intro entry member
    rcases mem_append.1 member with earlier | new
    · exact held entry earlier
    · rw [mem_singleton.1 new]
      rfl
  | refusal error | error retryable text | taskFailure text => exact held

theorem Run.start_dated (clients quorum : Nat) (fallbackLockId : Id) (validUntil : Nat) :
    (Run.start clients quorum fallbackLockId validUntil).Dated := by
  apply Attempt.waiting_dated
  apply Attempt.spawn_dated
  intro entry member
  cases member

theorem Run.step_dated (dated : run.Dated) (stepped : run.step event = some next) : next.Dated := by
  rcases Run.step_cases stepped with ⟨_, _, rfl⟩ | ⟨_, _, _, _, _, rfl⟩ | ⟨_, _, _, _, _, _, rfl⟩
  · exact Attempt.timeout_dated dated.held
  · exact Attempt.after_reply_dated (Attempt.record_dated _ _ dated.held)
  · exact ⟨dated.held, dated.kept⟩

theorem Run.start_valid_until (clients quorum : Nat) (fallbackLockId : Id) (validUntil : Nat) :
    (Run.start clients quorum fallbackLockId validUntil).attempt.validUntil = validUntil := by
  unfold start
  rw [waiting_attempt]
  exact (Attempt.spawn_request _ _ _).validUntil

end Attempts

/-- What a session keeps: its request, and what it has handed to release tasks. -/
structure Session.Follows (before after : Session) : Prop where
  lockType : after.lockType = before.lockType
  ttl : after.ttl = before.ttl
  validUntil : after.run.attempt.validUntil = before.run.attempt.validUntil
  released : before.released ⊆ after.released

theorem Session.Follows.refl (session : Session) : session.Follows session :=
  ⟨rfl, rfl, rfl, List.Subset.refl _⟩

namespace System

/-- The server has a lease of the id that lasts up to an instant still to come, unless
the lease is being released. -/
def Backed (system : System) (lockId server instant : Nat) : Prop :=
  instant ≤ system.now ∨ Message.release lockId server ∈ system.sent ∨
    ∃ entry ∈ (system.servers server).guards, entry.lockId = lockId ∧ instant ≤ entry.deadline

/-- What no step takes back: leases go when they are past their deadline, or released. The clock
only moves forward, and sent requests stay sent. -/
structure Grows (before after : System) : Prop where
  lock : after.lock = before.lock
  now : before.now ≤ after.now
  sent : before.sent ⊆ after.sent
  leases : ∀ server, ∀ entry ∈ (before.servers server).guards,
    after.Backed entry.lockId server entry.deadline
  sessions : ∀ (lockId : Nat) (session : Session), before.sessions[lockId]? = some session →
    ∃ next, after.sessions[lockId]? = some next ∧ session.Follows next

variable {before after system : System} {lockId server instant : Nat}

theorem Backed.sooner {sooner : Nat} (backed : system.Backed lockId server instant)
    (earlier : sooner ≤ instant) : system.Backed lockId server sooner := by
  rcases backed with past | released | ⟨entry, member, isLock, lasts⟩
  · exact .inl (earlier.trans past)
  · exact .inr (.inl released)
  · exact .inr (.inr ⟨entry, member, isLock, earlier.trans lasts⟩)

theorem Backed.grows (backed : before.Backed lockId server instant) (grows : before.Grows after) :
    after.Backed lockId server instant := by
  rcases backed with past | released | ⟨entry, member, rfl, lasts⟩
  · exact .inl (past.trans grows.now)
  · exact .inr (.inl (grows.sent released))
  · exact (grows.leases server entry member).sooner lasts

def QuorumBacked (system : System) (lockId : Nat) (entries : List (HeldLockEntry Nat))
    (quorum instant : Nat) : Prop :=
  ∃ servers : List Nat, servers.Nodup ∧ quorum ≤ servers.length ∧
    ∀ server ∈ servers, (lockId, server) ∈ entries.map HeldLockEntry.releaseEntry ∧
      system.Backed lockId server instant

structure TaskSound (system : System) (guard : DistributedLockGuard Nat) (task : Heartbeat Nat) :
    Prop where
  entries : task.entries.map HeldLockEntry.releaseEntry =
    guard.entries.map HeldLockEntry.releaseEntry
  backed : ∀ entry ∈ task.entries, system.Backed entry.lockId entry.client entry.validUntil
  started : ∀ call ∈ task.pending, call.2 ≤ system.now

structure GuardSound (system : System) (lockId quorum : Nat) (run : Run Nat)
    (guard : DistributedLockGuard Nat) : Prop where
  acquired : ∃ result, run.result = some result ∧ result.success = true ∧
    guard.entries = result.individualLocks
  inForce : guard.lockLost.lost = false → ∃ validUntil, guard.lockLost.validUntil = some validUntil ∧
    system.QuorumBacked lockId guard.entries quorum validUntil
  task : ∀ task, guard.refreshTask = some task → system.TaskSound guard task

structure SessionSound (system : System) (lockId : Nat) (session : Session) : Prop where
  clients : session.run.attempt.clients = system.lock.clients
  started : session.run.attempt.validUntil ≤ system.now + session.ttl
  accounts : ∃ granted, session.run.Accounts granted ∧
    ∀ grant ∈ granted, grant.1 = lockId ∧ Message.granted lockId grant.2 ∈ system.sent
  dated : session.run.Dated
  guard : ∀ guard, session.guard = some guard →
    system.GuardSound lockId (system.lock.requiredQuorum session.lockType) session.run guard

def MessageSound (system : System) : Message → Prop
  | .acquire lockId _ lockType ttl =>
    ∃ session, system.sessions[lockId]? = some session ∧ session.lockType = lockType ∧
      session.ttl = ttl
  | .granted lockId server =>
    ∃ session, system.sessions[lockId]? = some session ∧
      system.Backed lockId server session.run.attempt.validUntil
  | .refresh _ _ refreshStarted => refreshStarted ≤ system.now
  | .refreshed lockId server refreshStarted found =>
    found = true → ∃ session, system.sessions[lockId]? = some session ∧
      system.Backed lockId server (refreshStarted + session.ttl)
  | .release lockId server =>
    ∃ session, system.sessions[lockId]? = some session ∧ (lockId, server) ∈ session.released

def LeaseSound (system : System) (entry : LocalGuardEntry Nat) : Prop :=
  entry.deadline ≤ system.now + entry.ttl ∧
    ∃ session, system.sessions[entry.lockId]? = some session ∧
      session.lockType = entry.lockType ∧ session.ttl = entry.ttl

structure Sound (system : System) : Prop where
  sessions : ∀ lockId session, system.sessions[lockId]? = some session →
    system.SessionSound lockId session
  messages : ∀ message ∈ system.sent, system.MessageSound message
  leases : ∀ server, ∀ entry ∈ (system.servers server).guards, system.LeaseSound entry

section Grows

variable {quorum : Nat} {entries : List (HeldLockEntry Nat)} {run : Run Nat} {session : Session}
  {guard : DistributedLockGuard Nat} {task : Heartbeat Nat} {entry : LocalGuardEntry Nat}
  {message : Message}

theorem QuorumBacked.grows (backed : before.QuorumBacked lockId entries quorum instant)
    (grows : before.Grows after) : after.QuorumBacked lockId entries quorum instant := by
  obtain ⟨servers, distinct, enough, each⟩ := backed
  refine ⟨servers, distinct, enough, ?_⟩
  intro server member
  exact ⟨(each server member).1, (each server member).2.grows grows⟩

theorem TaskSound.grows (sound : before.TaskSound guard task) (grows : before.Grows after) :
    after.TaskSound guard task where
  entries := sound.entries
  backed := fun entry member => (sound.backed entry member).grows grows
  started := fun call member => (sound.started call member).trans grows.now

theorem GuardSound.grows (sound : before.GuardSound lockId quorum run guard)
    (grows : before.Grows after) : after.GuardSound lockId quorum run guard where
  acquired := sound.acquired
  inForce := fun notLost => by
    obtain ⟨validUntil, isSet, backed⟩ := sound.inForce notLost
    exact ⟨validUntil, isSet, backed.grows grows⟩
  task := fun task isTask => (sound.task task isTask).grows grows

theorem SessionSound.grows (sound : before.SessionSound lockId session)
    (grows : before.Grows after) : after.SessionSound lockId session where
  clients := by
    rw [grows.lock]
    exact sound.clients
  started := sound.started.trans (Nat.add_le_add_right grows.now _)
  accounts := by
    obtain ⟨granted, accounts, known⟩ := sound.accounts
    refine ⟨granted, accounts, ?_⟩
    intro grant member
    exact ⟨(known grant member).1, grows.sent (known grant member).2⟩
  dated := sound.dated
  guard := fun guard isGuard => by
    rw [grows.lock]
    exact (sound.guard guard isGuard).grows grows

theorem MessageSound.grows (sound : before.MessageSound message) (grows : before.Grows after) :
    after.MessageSound message := by
  cases message with
  | acquire lockId server lockType ttl =>
    obtain ⟨session, found, sameType, sameTtl⟩ := sound
    obtain ⟨next, isNext, follows⟩ := grows.sessions lockId session found
    exact ⟨next, isNext, follows.lockType.trans sameType, follows.ttl.trans sameTtl⟩
  | granted lockId server =>
    obtain ⟨session, found, backed⟩ := sound
    obtain ⟨next, isNext, follows⟩ := grows.sessions lockId session found
    refine ⟨next, isNext, ?_⟩
    rw [follows.validUntil]
    exact backed.grows grows
  | refresh lockId server refreshStarted => exact Nat.le_trans sound grows.now
  | refreshed lockId server refreshStarted found =>
    intro isFound
    obtain ⟨session, known, backed⟩ := sound isFound
    obtain ⟨next, isNext, follows⟩ := grows.sessions lockId session known
    refine ⟨next, isNext, ?_⟩
    rw [follows.ttl]
    exact backed.grows grows
  | release lockId server =>
    obtain ⟨session, found, released⟩ := sound
    obtain ⟨next, isNext, follows⟩ := grows.sessions lockId session found
    exact ⟨next, isNext, follows.released released⟩

theorem LeaseSound.grows (sound : before.LeaseSound entry) (grows : before.Grows after) :
    after.LeaseSound entry := by
  obtain ⟨bounded, session, found, sameType, sameTtl⟩ := sound
  obtain ⟨next, isNext, follows⟩ := grows.sessions _ session found
  exact ⟨bounded.trans (Nat.add_le_add_right grows.now _), next, isNext,
    follows.lockType.trans sameType, follows.ttl.trans sameTtl⟩

theorem Sound.grows (sound : before.Sound) (grows : before.Grows after)
    (sessions : ∀ lockId session, after.sessions[lockId]? = some session →
      before.sessions[lockId]? = some session ∨ after.SessionSound lockId session)
    (messages : ∀ message ∈ after.sent, message ∈ before.sent ∨ after.MessageSound message)
    (leases : ∀ server, ∀ entry ∈ (after.servers server).guards,
      entry ∈ (before.servers server).guards ∨ after.LeaseSound entry) : after.Sound where
  sessions := fun lockId session found => by
    rcases sessions lockId session found with old | new
    · exact (sound.sessions lockId session old).grows grows
    · exact new
  messages := fun message member => by
    rcases messages message member with old | new
    · exact (sound.messages message old).grows grows
    · exact new
  leases := fun server entry member => by
    rcases leases server entry member with old | new
    · exact (sound.leases server entry old).grows grows
    · exact new

theorem same_sessions (same : after.sessions = before.sessions) (lockId : Nat) (session : Session)
    (found : before.sessions[lockId]? = some session) :
    ∃ next, after.sessions[lockId]? = some next ∧ session.Follows next := by
  rw [same]
  exact ⟨session, found, .refl session⟩

theorem same_leases (same : after.servers = before.servers) (server : Nat)
    (entry : LocalGuardEntry Nat) (member : entry ∈ (before.servers server).guards) :
    after.Backed entry.lockId server entry.deadline := by
  refine .inr (.inr ⟨entry, ?_, rfl, Nat.le_refl _⟩)
  rw [same]
  exact member

end Grows

end System

end Rustfs.Lock

namespace Rustfs.Lock.System

open List Option Function DistributedLock

variable {before after system : System} {lockId server instant : Nat} {session next : Session}
  {guard : DistributedLockGuard Nat} {task : Heartbeat Nat} {refreshStarted : Nat} {action : Action}
  {message : Message} {client : LocalClient Nat} {answer : List Message} {lockType : LockType}
  {event : SystemEvent} {events : List SystemEvent}

theorem SessionSound.kept (sound : system.SessionSound lockId session)
    {result : LockAcquireQuorumResult Nat} (returned : session.run.result = some result)
    (success : result.success = true) :
    (∀ entry ∈ result.individualLocks, entry.lockId = lockId ∧ entry.client < system.lock.clients ∧
      Message.granted lockId entry.client ∈ system.sent ∧
      entry.releaseEntry ∉ session.run.released) ∧
    ((result.individualLocks.map HeldLockEntry.releaseEntry).map Prod.snd).Nodup := by
  obtain ⟨granted, accounts, known⟩ := sound.accounts
  obtain ⟨_, added⟩ := accounts.succeeded result returned success
  have distinct : (granted.map Prod.snd).Nodup := accounts.sound.distinct.of_append_left
  constructor
  · intro entry member
    have isKept : entry.releaseEntry ∈ result.individualLocks.map HeldLockEntry.releaseEntry :=
      List.mem_map_of_mem member
    have isGranted : entry.releaseEntry ∈ granted := by
      rw [← added]
      exact mem_append_left _ isKept
    have asked := accounts.sound.grantedAsked _ isGranted
    have bounded := accounts.sound.bounded
    rw [sound.clients] at bounded
    refine ⟨(known _ isGranted).1, Nat.lt_of_lt_of_le asked bounded, (known _ isGranted).2, ?_⟩
    intro isReleased
    have apart := List.Nodup.of_map _ distinct
    rw [← added, nodup_append] at apart
    exact apart.2.2 _ isKept _ isReleased rfl
  · rw [← added, map_append] at distinct
    exact distinct.of_append_left

theorem SessionSound.released_own (sound : system.SessionSound lockId session) :
    ∀ release ∈ session.released, release.1 = lockId := by
  intro release member
  obtain ⟨granted, accounts, known⟩ := sound.accounts
  rcases mem_append.1 member with early | late
  · exact (known release (accounts.released_subset early)).1
  · cases isGuard : session.guard with
    | none =>
      rw [isGuard] at late
      cases late
    | some guard =>
      rw [isGuard] at late
      obtain ⟨result, returned, success, same⟩ := (sound.guard guard isGuard).acquired
      dsimp only at late
      split at late
      · obtain ⟨entry, isEntry, rfl⟩ := mem_map.1 late
        rw [same] at isEntry
        exact ((sound.kept returned success).1 entry isEntry).1
      · cases late

theorem quorum_backed {entries held : List (HeldLockEntry Nat)} {quorum : Nat}
    (same : entries.map HeldLockEntry.releaseEntry = held.map HeldLockEntry.releaseEntry)
    (own : ∀ entry ∈ held, entry.lockId = lockId)
    (distinct : ((held.map HeldLockEntry.releaseEntry).map Prod.snd).Nodup)
    (backed : ∀ entry ∈ entries, system.Backed entry.lockId entry.client entry.validUntil)
    (reached : quorumValidUntil entries quorum = some instant) :
    system.QuorumBacked lockId held quorum instant := by
  refine ⟨((entries.filter fun entry => decide (instant ≤ entry.validUntil)).map
    HeldLockEntry.releaseEntry).map Prod.snd, ?_, ?_, ?_⟩
  · rw [← same] at distinct
    exact distinct.sublist ((filter_sublist.map _).map _)
  · rw [length_map, length_map]
    exact quorum_valid_until_reached reached
  · intro server member
    obtain ⟨_, isRelease, rfl⟩ := mem_map.1 member
    obtain ⟨entry, isEntry, rfl⟩ := mem_map.1 isRelease
    obtain ⟨inEntries, lasts⟩ := mem_filter.1 isEntry
    have isHeld : entry.releaseEntry ∈ held.map HeldLockEntry.releaseEntry := by
      rw [← same]
      exact List.mem_map_of_mem inEntries
    obtain ⟨other, isOther, sameEntry⟩ := mem_map.1 isHeld
    have isOwn : entry.lockId = lockId := (congrArg Prod.fst sameEntry).symm.trans (own other isOther)
    refine ⟨?_, ?_⟩
    · rw [← isOwn]
      exact isHeld
    · have lease := (backed entry inEntries).sooner (of_decide_eq_true lasts)
      rw [isOwn] at lease
      exact lease

theorem run_step_sound {event : Event Nat} {run : Run Nat}
    (sound : system.SessionSound lockId session) (stepped : session.run.step event = some run)
    (known : ∀ grant ∈ grants session.run.attempt.fallbackLockId [event],
      grant.1 = lockId ∧ Message.granted lockId grant.2 ∈ system.sent) :
    session.Follows { session with run := run } ∧
      system.SessionSound lockId { session with run := run } := by
  obtain ⟨granted, accounts, grantsKnown⟩ := sound.accounts
  have request := Run.step_request stepped
  refine ⟨⟨rfl, rfl, request.validUntil, ?_⟩, ⟨?_, ?_, ?_, ?_, ?_⟩⟩
  · exact append_subset.2 ⟨subset_append_of_subset_left _
      (Run.step_released accounts stepped), subset_append_right _ _⟩
  · exact request.clients.trans sound.clients
  · exact request.validUntil.trans_le sound.started
  · refine ⟨_, Run.step_accounts accounts stepped, ?_⟩
    intro grant member
    rcases mem_append.1 member with old | new
    · exact grantsKnown grant old
    · exact known grant new
  · exact Run.step_dated sound.dated stepped
  · intro guard isGuard
    obtain ⟨⟨result, returned, success, same⟩, inForce, isTask⟩ := sound.guard guard isGuard
    exact ⟨⟨result, Run.step_result returned stepped, success, same⟩, inForce, isTask⟩

section

variable (systemSound : system.Sound) (found : system.sessions[lockId]? = some session)

include systemSound found

theorem acquire_guard_sound (stepped : session.acquireGuard system.lock system.now = some next) :
    session.Follows next ∧ system.SessionSound lockId next := by
  have sound := systemSound.sessions lockId session found
  unfold Session.acquireGuard at stepped
  split at stepped
  · rename_i result noGuard returned
    split at stepped
    · rename_i success
      cases stepped
      obtain ⟨own, distinct⟩ := sound.kept returned success
      have backed : ∀ entry ∈ result.individualLocks,
          system.Backed entry.lockId entry.client entry.validUntil := by
        intro entry member
        obtain ⟨isOwn, _, isGranted, _⟩ := own entry member
        obtain ⟨other, isOther, lease⟩ := systemSound.messages _ isGranted
        rw [found] at isOther
        cases isOther
        rw [isOwn, sound.dated.kept result returned entry member]
        exact lease
      refine ⟨⟨rfl, rfl, rfl, ?_⟩, ⟨sound.clients, sound.started, sound.accounts, sound.dated, ?_⟩⟩
      · simp only [Session.released, noGuard, append_nil]
        exact subset_append_left _ _
      · intro guard isGuard
        cases isGuard
        refine ⟨⟨result, returned, success, rfl⟩, ?_, ?_⟩
        · intro notLost
          dsimp only [DistributedLockGuard.new] at notLost ⊢
          split at notLost
          · rename_i validUntil reached
            refine ⟨validUntil, rfl, ?_⟩
            exact quorum_backed rfl (fun entry member => (own entry member).1) distinct backed reached
          · cases notLost
        · intro task isTask
          obtain ⟨_, _, rfl⟩ := map_eq_some_iff.1 isTask
          exact ⟨rfl, backed, fun call member => by cases member⟩
    · cases stepped
  · cases stepped

theorem answered_task_sound (isGuard : session.guard = some guard)
    (isTask : guard.refreshTask = some task) (own : ∀ entry ∈ guard.entries, entry.lockId = lockId)
    (sound : system.TaskSound guard task) {index : Nat} {answer : Option Bool}
    (received : ∀ message ∈ session.receives lockId (.beat (.answer index refreshStarted answer)),
      message ∈ system.sent) {answered : Heartbeat Nat} (pending : answered.pending ⊆ task.pending)
    (entries : answered.entries = task.entries.modify index fun entry =>
      Heartbeat.answered session.ttl system.now refreshStarted entry answer) :
    system.TaskSound guard answered := by
  refine ⟨?_, ?_, fun call member => sound.started call (pending member)⟩
  · rw [← sound.entries, entries]
    apply ext_getElem?
    intro position
    rw [getElem?_map, getElem?_map, getElem?_modify]
    cases task.entries[position]? with
    | none => rfl
    | some entry =>
      dsimp only [Functor.map, Option.map]
      split
      · rw [answered_release_entry]
      · rfl
  · intro entry member
    rw [entries] at member
    obtain ⟨position, isEntry⟩ := mem_iff_getElem?.1 member
    rw [getElem?_modify] at isEntry
    obtain ⟨old, isOld, rfl⟩ := map_eq_some_iff.1 isEntry
    have oldMember : old ∈ task.entries := mem_of_getElem? isOld
    have backed := sound.backed old oldMember
    split
    · rename_i same
      subst same
      cases answer with
      | none => exact backed
      | some known =>
        cases known with
        | false => exact .inl (Nat.le_refl _)
        | true =>
          have isSent : Message.refreshed old.lockId old.client refreshStarted true ∈
              system.sent := by
            apply received
            simp [Session.receives, isGuard, isTask, isOld]
          obtain ⟨other, isOther, lease⟩ := systemSound.messages _ isSent rfl
          have sameEntry : old.releaseEntry ∈ guard.entries.map HeldLockEntry.releaseEntry := by
            rw [← sound.entries]
            exact List.mem_map_of_mem oldMember
          obtain ⟨entry, isHeld, isSame⟩ := mem_map.1 sameEntry
          have isOwn : old.lockId = lockId :=
            (congrArg Prod.fst isSame).symm.trans (own entry isHeld)
          rw [isOwn, found] at isOther
          cases isOther
          exact lease
    · exact backed

theorem run_heartbeat_sound {beat : Beat}
    (received : ∀ message ∈ session.receives lockId (.beat beat), message ∈ system.sent)
    (stepped : session.runHeartbeat system.lock system.now beat = some next) :
    session.Follows next ∧ system.SessionSound lockId next := by
  have sound := systemSound.sessions lockId session found
  obtain ⟨guard, isGuard, rest⟩ := bind_eq_some_iff.1 stepped
  obtain ⟨task, isTask, rest⟩ := bind_eq_some_iff.1 rest
  obtain ⟨⟨later, lockLost⟩, beaten, isNext⟩ := bind_eq_some_iff.1 rest
  cases isNext
  obtain ⟨⟨result, returned, success, same⟩, inForce, taskSound⟩ := sound.guard guard isGuard
  have isSound := taskSound task isTask
  obtain ⟨kept, distinct⟩ := sound.kept returned success
  rw [← same] at distinct
  have own : ∀ entry ∈ guard.entries, entry.lockId = lockId := by
    intro entry member
    rw [same] at member
    exact (kept entry member).1
  have laterSound : system.TaskSound guard later ∧ (lockLost.lost = false →
      ∃ validUntil, lockLost.validUntil = some validUntil ∧ system.QuorumBacked lockId guard.entries
        (system.lock.requiredQuorum session.lockType) validUntil) := by
    rcases Heartbeat.step_cases beaten with ⟨entries, pending, signal⟩ |
        ⟨index, refreshStarted, answer, rfl, _, rfl, pending, entries⟩
    · constructor
      · refine ⟨by rw [entries]; exact isSound.entries, by rw [entries]; exact isSound.backed, ?_⟩
        intro call member
        rcases pending call member with old | new
        · exact isSound.started call old
        · exact le_of_eq new
      · intro notLost
        rcases signal with rfl | rfl | ⟨validUntil, reached, rfl⟩
        · exact inForce notLost
        · cases notLost
        · unfold LockLostSignal.setValidUntil at notLost ⊢
          split at notLost
          · rename_i isLost
            rw [isLost] at notLost
            cases notLost
          · split at notLost
            · cases notLost
            · rename_i stillValid notExpired
              rw [if_neg stillValid, if_neg notExpired]
              exact ⟨validUntil, rfl, quorum_backed isSound.entries own distinct isSound.backed reached⟩
    · exact ⟨answered_task_sound systemSound found isGuard isTask own isSound received pending entries,
        inForce⟩
  refine ⟨⟨rfl, rfl, rfl, ?_⟩, ⟨sound.clients, sound.started, sound.accounts, sound.dated, ?_⟩⟩
  · simp only [Session.released, isGuard]
    exact List.Subset.refl _
  · intro guard isNew
    cases isNew
    refine ⟨⟨result, returned, success, same⟩, laterSound.2, ?_⟩
    intro task isTask
    cases isTask
    exact ⟨laterSound.1.entries, laterSound.1.backed, laterSound.1.started⟩

end

/-- A change of the guard that keeps its entries, does not bring it back into force and
leaves the heartbeat or stops it. -/
theorem on_guard_sound (sound : system.SessionSound lockId session)
    {change : DistributedLockGuard Nat → DistributedLockGuard Nat}
    (stepped : session.onGuard change = some next)
    (entries : ∀ guard, (change guard).entries = guard.entries)
    (released : ∀ guard : DistributedLockGuard Nat, guard.released = true →
      (change guard).released = true) (signal : ∀ guard, (change guard).lockLost.lost = false →
      (change guard).lockLost = guard.lockLost)
    (task : ∀ guard task, (change guard).refreshTask = some task → guard.refreshTask = some task) :
    session.Follows next ∧ system.SessionSound lockId next := by
  obtain ⟨guard, isGuard, rfl⟩ := map_eq_some_iff.1 stepped
  obtain ⟨⟨result, returned, success, same⟩, inForce, taskSound⟩ := sound.guard guard isGuard
  refine ⟨⟨rfl, rfl, rfl, ?_⟩, ⟨sound.clients, sound.started, sound.accounts, sound.dated, ?_⟩⟩
  · simp only [Session.released, isGuard, entries]
    refine append_subset.2 ⟨subset_append_left _ _, ?_⟩
    refine subset_append_of_subset_right _ ?_
    split
    · rename_i isReleased
      rw [if_pos (released guard isReleased)]
      exact List.Subset.refl _
    · exact nil_subset _
  · intro changed isChanged
    cases isChanged
    refine ⟨⟨result, returned, success, (entries guard).trans same⟩, ?_, ?_⟩
    · intro notLost
      have kept := signal guard notLost
      rw [kept] at notLost ⊢
      rw [entries]
      exact inForce notLost
    · intro later isLater
      have old := taskSound later (task guard later isLater)
      exact ⟨old.entries.trans (by rw [entries]), old.backed, old.started⟩

theorem session_step_sound (systemSound : system.Sound)
    (found : system.sessions[lockId]? = some session)
    (received : ∀ message ∈ session.receives lockId action, message ∈ system.sent)
    (stepped : session.step system.lock system.now lockId action = some next) :
    session.Follows next ∧ system.SessionSound lockId next := by
  have sound := systemSound.sessions lockId session found
  cases action with
  | granted server =>
    obtain ⟨run, ran, rfl⟩ := map_eq_some_iff.1 stepped
    refine run_step_sound sound ran ?_
    intro grant member
    rw [mem_singleton.1 member]
    exact ⟨rfl, received _ rfl⟩
  | failed server reply =>
    cases reply with
    | grant given => cases stepped
    | refusal error =>
      obtain ⟨run, ran, rfl⟩ := map_eq_some_iff.1 stepped
      exact run_step_sound sound ran fun grant member => by cases member
    | error retryable text =>
      obtain ⟨run, ran, rfl⟩ := map_eq_some_iff.1 stepped
      exact run_step_sound sound ran fun grant member => by cases member
    | taskFailure text =>
      obtain ⟨run, ran, rfl⟩ := map_eq_some_iff.1 stepped
      exact run_step_sound sound ran fun grant member => by cases member
  | timeout =>
    obtain ⟨run, ran, rfl⟩ := map_eq_some_iff.1 stepped
    exact run_step_sound sound ran fun grant member => by cases member
  | acquired => exact acquire_guard_sound systemSound found stepped
  | beat beat => exact run_heartbeat_sound systemSound found received stepped
  | isLost =>
    refine on_guard_sound sound stepped (fun _ => rfl) (fun _ => id) ?_ (fun _ _ => id)
    intro guard notLost
    dsimp only [LockLostSignal.checked] at notLost ⊢
    split at notLost
    · cases notLost
    · rename_i inForce
      rw [if_neg inForce]
  | disarm =>
    exact on_guard_sound sound stepped (fun _ => rfl) (fun _ => id) (fun _ _ => rfl)
      (fun _ _ stopped => by cases stopped)
  | release =>
    refine on_guard_sound sound stepped ?_ ?_ ?_ ?_
    · intro guard
      unfold DistributedLockGuard.release
      split
      all_goals rfl
    · intro guard isReleased
      unfold DistributedLockGuard.release
      split
      · exact isReleased
      · rfl
    · intro guard _
      unfold DistributedLockGuard.release
      split
      all_goals rfl
    · intro guard task isTask
      unfold DistributedLockGuard.release at isTask
      split at isTask
      all_goals cases isTask

theorem advance_sound (sound : system.Sound) (duration : Nat) :
    ({ system with now := system.now + duration } : System).Sound := by
  refine sound.grows ⟨rfl, Nat.le_add_right _ _, List.Subset.refl _, same_leases rfl,
    same_sessions rfl⟩ ?_ ?_ ?_
  · exact fun _ _ known => .inl known
  · exact fun _ known => .inl known
  · exact fun _ _ known => .inl known

theorem start_sound (sound : system.Sound) (lockType : LockType) (ttl : Nat)
    (refreshInterval : Option Nat) :
    ({ system with
      sessions := system.sessions ++ [system.newSession lockType ttl refreshInterval] } :
        System).Sound := by
  refine sound.grows ⟨rfl, Nat.le_refl _, List.Subset.refl _, same_leases rfl, ?_⟩ ?_ ?_ ?_
  · intro lockId session found
    refine ⟨session, ?_, .refl session⟩
    obtain ⟨bound, _⟩ := List.getElem?_eq_some_iff.1 found
    dsimp only
    rw [getElem?_append_left bound]
    exact found
  · intro lockId session found
    dsimp only at found
    rw [getElem?_append] at found
    split at found
    · exact .inl found
    · have isNew : session = system.newSession lockType ttl refreshInterval :=
        mem_singleton.1 (mem_of_getElem? found)
      subst isNew
      refine .inr ⟨(Run.start_request _ _ _ _).1, ?_, ?_, Run.start_dated _ _ _ _, ?_⟩
      · exact le_of_eq (Run.start_valid_until _ _ _ _)
      · exact ⟨[], Run.start_accounts _ _ _ _, fun grant member => by cases member⟩
      · intro guard isGuard
        cases isGuard
  · exact fun _ known => .inl known
  · exact fun _ _ known => .inl known

theorem act_sound (sound : system.Sound) (found : system.sessions[lockId]? = some session)
    (received : ∀ message ∈ session.receives lockId action, message ∈ system.sent)
    (stepped : session.step system.lock system.now lockId action = some next) :
    ({ system with sessions := system.sessions.set lockId next } : System).Sound := by
  obtain ⟨follows, nextSound⟩ := session_step_sound sound found received stepped
  obtain ⟨bound, _⟩ := List.getElem?_eq_some_iff.1 found
  have grows : system.Grows { system with sessions := system.sessions.set lockId next } := by
    refine ⟨rfl, Nat.le_refl _, List.Subset.refl _, same_leases rfl, ?_⟩
    intro other session isOther
    dsimp only
    rw [getElem?_set]
    split
    · rename_i same
      subst same
      rw [found] at isOther
      cases isOther
      exact ⟨next, rfl, follows⟩
    · exact ⟨session, isOther, .refl session⟩
  refine sound.grows grows ?_ (fun _ known => .inl known) (fun _ _ known => .inl known)
  intro other session isOther
  dsimp only at isOther
  rw [getElem?_set] at isOther
  split at isOther
  · rename_i same
    subst same
    cases isOther
    exact .inr (nextSound.grows grows)
  · exact .inl isOther

theorem send_sound (sound : system.Sound) (found : system.sessions[lockId]? = some session)
    (sends : session.Sends lockId message) :
    ({ system with sent := message :: system.sent } : System).Sound := by
  have sessionSound := sound.sessions lockId session found
  refine sound.grows ⟨rfl, Nat.le_refl _, subset_cons_self _ _, same_leases rfl,
    same_sessions rfl⟩ (fun _ _ known => .inl known) ?_ (fun _ _ known => .inl known)
  intro other member
  rcases mem_cons.1 member with rfl | old
  · refine .inr ?_
    cases other with
    | acquire requested server lockType ttl =>
      obtain ⟨rfl, _, sameType, sameTtl⟩ := sends
      exact ⟨session, found, sameType.symm, sameTtl.symm⟩
    | refresh held server refreshStarted =>
      have isCall : (held, server, refreshStarted) ∈ session.refreshCalls := sends
      unfold Session.refreshCalls at isCall
      split at isCall
      · rename_i task isTask
        obtain ⟨guard, isGuard, isTask⟩ := bind_eq_some_iff.1 isTask
        obtain ⟨call, isPending, isCall⟩ := mem_filterMap.1 isCall
        obtain ⟨entry, _, same⟩ := map_eq_some_iff.1 isCall
        cases same
        exact ((sessionSound.guard guard isGuard).task task isTask).started call isPending
      · cases isCall
    | release held server =>
      have own : held = lockId := sessionSound.released_own _ sends
      subst own
      exact ⟨session, found, sends⟩
    | granted granted server => cases sends
    | refreshed held server refreshStarted found => cases sends
  · exact .inl old

/-- A server that has handled a request keeps what it had, and its new leases and
answers are sound. -/
theorem served_sound (sound : system.Sound) (keeps : ∀ entry ∈ (system.servers server).guards,
      (system.served server client answer).Backed entry.lockId server entry.deadline)
    (answers : ∀ message ∈ answer, (system.served server client answer).MessageSound message)
    (leases : ∀ entry ∈ client.guards, entry ∈ (system.servers server).guards ∨
      (system.served server client answer).LeaseSound entry) :
    (system.served server client answer).Sound := by
  refine sound.grows ⟨rfl, Nat.le_refl _, subset_append_right _ _, ?_, same_sessions rfl⟩
    (fun _ _ known => .inl known) ?_ ?_
  · intro other entry member
    by_cases same : other = server
    · subst same
      exact keeps entry member
    · refine .inr (.inr ⟨entry, ?_, rfl, Nat.le_refl _⟩)
      dsimp only [served]
      rw [update_of_ne same]
      exact member
  · intro message member
    rcases mem_append.1 member with new | old
    · exact .inr (answers message new)
    · exact .inl old
  · intro other entry member
    dsimp only [served] at member
    by_cases same : other = server
    · subst same
      rw [update_self] at member
      exact leases entry member
    · rw [update_of_ne same] at member
      exact .inl member

theorem backed_of_mem
    {entry : LocalGuardEntry Nat} (member : entry ∈ client.guards) (isLock : entry.lockId = lockId)
    (lasts : instant ≤ entry.deadline) :
    (system.served server client answer).Backed lockId server instant := by
  refine .inr (.inr ⟨entry, ?_, isLock, lasts⟩)
  dsimp only [served]
  rw [update_self]
  exact member

theorem keep_sound (sound : system.Sound) {stays : LocalGuardEntry Nat → Bool}
    (dropped : ∀ entry ∈ (system.servers server).guards, stays entry = false →
      entry.deadline ≤ system.now ∨ Message.release entry.lockId server ∈ system.sent)
    (answers : ∀ message ∈ answer,
      (system.served server ((system.servers server).keep stays) answer).MessageSound message) :
    (system.served server ((system.servers server).keep stays) answer).Sound := by
  refine served_sound sound ?_ answers ?_
  · intro entry member
    cases staying : stays entry with
    | true => exact backed_of_mem (LocalClient.mem_keep.2 ⟨member, staying⟩) rfl (Nat.le_refl _)
    | false =>
      rcases dropped entry member staying with past | released
      · exact .inl past
      · exact .inr (.inl (mem_append_right _ released))
  · intro entry member
    exact .inl (LocalClient.mem_keep.1 member).1

theorem reclaim_sound (sound : system.Sound) (server : Nat) :
    (system.served server ((system.servers server).reclaimExpiredGuards system.now) []).Sound := by
  refine keep_sound sound ?_ (fun message member => by cases member)
  intro entry _ expired
  refine .inl ?_
  simpa [LocalGuardEntry.isExpired] using expired

theorem acquire_served_sound (sound : system.Sound) {ttl : Nat}
    (isSent : Message.acquire lockId server lockType ttl ∈ system.sent)
    (granted : (system.servers server).acquireLock lockId lockType ttl system.now = some client) :
    (system.served server client [.granted lockId server]).Sound := by
  obtain ⟨session, found, sameType, sameTtl⟩ := sound.messages _ isSent
  have guards := LocalClient.acquire_lock_cases granted
  have isNew : LocalGuardEntry.new lockId lockType ttl system.now ∈ client.guards := by
    rw [guards]
    exact mem_cons_self
  refine served_sound sound ?_ ?_ ?_
  · intro entry member
    by_cases same : entry.lockId = lockId
    · obtain ⟨bounded, other, isOther, _, otherTtl⟩ := sound.leases server entry member
      rw [same, found] at isOther
      cases isOther
      rw [← otherTtl, sameTtl] at bounded
      rw [same]
      exact backed_of_mem isNew rfl bounded
    · refine backed_of_mem ?_ rfl (Nat.le_refl _)
      rw [guards]
      exact mem_cons_of_mem _ (LocalClient.mem_keep.2 ⟨member, decide_eq_true same⟩)
  · intro message member
    rw [mem_singleton.1 member]
    refine ⟨session, found, backed_of_mem isNew rfl ?_⟩
    have started := (sound.sessions lockId session found).started
    rw [sameTtl] at started
    exact started
  · intro entry member
    rw [guards] at member
    rcases mem_cons.1 member with rfl | old
    · exact .inr ⟨Nat.le_refl _, session, found, sameType, sameTtl⟩
    · exact .inl (LocalClient.mem_keep.1 old).1

theorem extend_served_sound (sound : system.Sound)
    (isSent : Message.refresh lockId server refreshStarted ∈ system.sent)
    (held : ∃ entry ∈ (system.servers server).guards, entry.lockId = lockId) :
    (system.served server ((system.servers server).extend lockId system.now)
      [.refreshed lockId server refreshStarted true]).Sound := by
  have extended : ∀ entry ∈ (system.servers server).guards, entry.lockId = lockId →
      entry.refresh system.now ∈ ((system.servers server).extend lockId system.now).guards := by
    intro entry member same
    refine mem_map.2 ⟨entry, member, ?_⟩
    rw [if_pos same]
  refine served_sound sound ?_ ?_ ?_
  · intro entry member
    by_cases same : entry.lockId = lockId
    · exact backed_of_mem (extended entry member same) rfl (sound.leases server entry member).1
    · refine backed_of_mem (mem_map.2 ⟨entry, member, ?_⟩) rfl (Nat.le_refl _)
      rw [if_neg same]
  · intro message member
    rw [mem_singleton.1 member]
    intro _
    obtain ⟨entry, isEntry, rfl⟩ := held
    obtain ⟨_, session, found, _, sameTtl⟩ := sound.leases server entry isEntry
    refine ⟨session, found, backed_of_mem (extended entry isEntry rfl) rfl ?_⟩
    have started : refreshStarted ≤ system.now := sound.messages _ isSent
    rw [sameTtl]
    exact Nat.add_le_add_right started _
  · intro entry member
    obtain ⟨old, isOld, rfl⟩ := mem_map.1 member
    split
    · obtain ⟨_, session, found, sameType, sameTtl⟩ := sound.leases server old isOld
      exact .inr ⟨Nat.le_refl _, session, found, sameType, sameTtl⟩
    · exact .inl isOld

theorem serve_sound (sound : system.Sound) (isSent : message ∈ system.sent)
    (served : system.serve message = some after) : after.Sound := by
  cases message with
  | acquire lockId server lockType ttl =>
    obtain ⟨client, granted, rfl⟩ := map_eq_some_iff.1 served
    exact acquire_served_sound sound isSent granted
  | refresh lockId server refreshStarted =>
    have isAfter : after = system.served server ((system.servers server).refresh lockId system.now).1
        [.refreshed lockId server refreshStarted
          ((system.servers server).refresh lockId system.now).2] := (Option.some.inj served).symm
    rw [isAfter]
    rcases (system.servers server).refresh_cases lockId system.now with
      ⟨found, extended, held⟩ | ⟨missing, same | ⟨dropped, expired⟩⟩
    · rw [found, extended]
      exact extend_served_sound sound isSent held
    · rw [missing, same]
      refine served_sound sound ?_ ?_ (fun entry member => .inl member)
      · exact fun entry member => backed_of_mem member rfl (Nat.le_refl _)
      · intro message member
        rw [mem_singleton.1 member]
        intro isFound
        cases isFound
    · rw [missing, dropped]
      refine keep_sound sound ?_ ?_
      · intro entry member leaves
        refine .inl (of_decide_eq_true (expired entry member ?_))
        simpa using leaves
      · intro message member
        rw [mem_singleton.1 member]
        intro isFound
        cases isFound
  | release lockId server =>
    cases served
    refine keep_sound sound ?_ (fun message member => by cases member)
    intro entry _ leaves
    have same : entry.lockId = lockId := by simpa using leaves
    rw [same]
    exact .inr isSent
  | granted lockId server => cases served
  | refreshed lockId server refreshStarted found => cases served

theorem step_sound (sound : system.Sound)
    (stepped : system.step event = some after) : after.Sound := by
  cases event with
  | advance duration =>
    cases stepped
    exact advance_sound sound duration
  | start lockType ttl refreshInterval =>
    dsimp only [step] at stepped
    split at stepped
    · cases stepped
    · cases stepped
      exact start_sound sound lockType ttl refreshInterval
  | act lockId action =>
    obtain ⟨session, found, acted⟩ := bind_eq_some_iff.1 stepped
    split at acted
    · rename_i received
      obtain ⟨next, moved, isNext⟩ := bind_eq_some_iff.1 acted
      cases isNext
      exact act_sound sound found received moved
    · cases acted
  | send lockId message =>
    obtain ⟨session, found, isSent⟩ := bind_eq_some_iff.1 stepped
    split at isSent
    · rename_i sends
      cases isSent
      exact send_sound sound found sends
    · cases isSent
  | serve message =>
    dsimp only [step] at stepped
    split at stepped
    · rename_i isSent
      exact serve_sound sound isSent stepped
    · cases stepped
  | reclaim server =>
    cases stepped
    exact reclaim_sound sound server

theorem new_sound (lock : DistributedLock) : (new lock).Sound where
  sessions := fun lockId session found => by cases found
  messages := fun message member => by cases member
  leases := fun server entry member => by cases member

theorem steps_sound (sound : system.Sound)
    (ran : system.steps events = some after) : after.Sound := by
  induction events generalizing system with
  | nil =>
    cases ran
    exact sound
  | cons event events ih =>
    obtain ⟨middle, stepped, rest⟩ := bind_eq_some_iff.1 ran
    exact ih (step_sound sound stepped) rest

theorem served_lock (served : system.serve message = some after) : after.lock = system.lock := by
  cases message with
  | acquire lockId server lockType ttl =>
    obtain ⟨client, _, rfl⟩ := map_eq_some_iff.1 served
    rfl
  | refresh lockId server refreshStarted =>
    cases served
    rfl
  | release lockId server =>
    cases served
    rfl
  | granted lockId server => cases served
  | refreshed lockId server refreshStarted found => cases served

theorem step_lock (stepped : system.step event = some after) : after.lock = system.lock := by
  cases event with
  | advance duration =>
    cases stepped
    rfl
  | start lockType ttl refreshInterval =>
    dsimp only [step] at stepped
    split at stepped
    · cases stepped
    · cases stepped
      rfl
  | act lockId action =>
    obtain ⟨session, _, acted⟩ := bind_eq_some_iff.1 stepped
    split at acted
    · obtain ⟨next, _, isNext⟩ := bind_eq_some_iff.1 acted
      cases isNext
      rfl
    · cases acted
  | send lockId message =>
    obtain ⟨session, _, isSent⟩ := bind_eq_some_iff.1 stepped
    split at isSent
    · cases isSent
      rfl
    · cases isSent
  | serve message =>
    dsimp only [step] at stepped
    split at stepped
    · exact served_lock stepped
    · cases stepped
  | reclaim server =>
    cases stepped
    rfl

theorem steps_lock (ran : system.steps events = some after) : after.lock = system.lock := by
  induction events generalizing system with
  | nil =>
    cases ran
    rfl
  | cons event events ih =>
    obtain ⟨middle, stepped, rest⟩ := bind_eq_some_iff.1 ran
    exact (ih rest).trans (step_lock stepped)

/-- The attempt has a guard that is not released and does not report the lock as lost. -/
def InForce (system : System) (lockId : Nat) (lockType : LockType) : Prop :=
  ∃ session guard, system.sessions[lockId]? = some session ∧ session.guard = some guard ∧
    session.lockType = lockType ∧ guard.released = false ∧
    guard.lockLost.isLost system.now = false

theorem in_force_leases (sound : system.Sound) (inForce : system.InForce lockId lockType) :
    ∃ servers : List Nat, servers.Nodup ∧ system.lock.requiredQuorum lockType ≤ servers.length ∧
      servers ⊆ List.range system.lock.clients ∧
      ∀ server ∈ servers, ∃ entry ∈ (system.servers server).guards,
        entry.lockId = lockId ∧ entry.lockType = lockType := by
  obtain ⟨session, guard, found, isGuard, rfl, unreleased, notLost⟩ := inForce
  have sessionSound := sound.sessions lockId session found
  obtain ⟨⟨result, returned, success, same⟩, backing, _⟩ := sessionSound.guard guard isGuard
  obtain ⟨kept, _⟩ := sessionSound.kept returned success
  unfold LockLostSignal.isLost at notLost
  rw [Bool.or_eq_false_iff] at notLost
  obtain ⟨validUntil, isSet, servers, distinct, enough, each⟩ := backing notLost.1
  have future : ¬ validUntil ≤ system.now := by
    have notExpired := notLost.2
    unfold LockLostSignal.expired at notExpired
    rw [isSet] at notExpired
    exact of_decide_eq_false notExpired
  have held : ∀ server ∈ servers, server < system.lock.clients ∧
      (lockId, server) ∉ session.run.released := by
    intro server member
    obtain ⟨entry, isEntry, sameEntry⟩ := mem_map.1 (each server member).1
    rw [same] at isEntry
    obtain ⟨_, bounded, _, unreleased⟩ := kept entry isEntry
    have isServer : entry.client = server := congrArg Prod.snd sameEntry
    rw [sameEntry] at unreleased
    exact ⟨isServer ▸ bounded, unreleased⟩
  refine ⟨servers, distinct, enough, fun server member => mem_range.2 (held server member).1, ?_⟩
  intro server member
  rcases (each server member).2 with past | released | ⟨entry, isEntry, isLock, _⟩
  · exact absurd past future
  · obtain ⟨other, isOther, isReleased⟩ := sound.messages _ released
    rw [found] at isOther
    cases isOther
    simp only [Session.released, isGuard, unreleased, Bool.false_eq_true, if_false,
      append_nil] at isReleased
    exact absurd isReleased (held server member).2
  · obtain ⟨_, other, isOther, sameType, _⟩ := sound.leases server entry isEntry
    rw [isLock, found] at isOther
    cases isOther
    exact ⟨entry, isEntry, isLock, sameType.symm⟩

theorem quorums_overlap (clients : Nat) {left right : LockType}
    (notShared : ¬ (left = .shared ∧ right = .shared)) :
    clients < (DistributedLock.newShared clients (clients / 2 + 1)).requiredQuorum left +
      (DistributedLock.newShared clients (clients / 2 + 1)).requiredQuorum right := by
  have write : clients < 2 * (newShared clients (clients / 2 + 1)).quorum := by
    dsimp only [newShared]
    split
    all_goals omega
  have mixed : clients < (newShared clients (clients / 2 + 1)).quorum +
      (newShared clients (clients / 2 + 1)).readQuorum := by
    dsimp only [newShared, readQuorum]
    split
    all_goals omega
  cases left with
  | shared =>
    cases right with
    | shared => exact absurd ⟨rfl, rfl⟩ notShared
    | exclusive =>
      dsimp only [requiredQuorum]
      omega
  | exclusive =>
    cases right with
    | shared => exact mixed
    | exclusive =>
      dsimp only [requiredQuorum]
      omega

/-- Two guards in force at the same instant are both shared. The clients are as many as one likes
and their quorum is a majority; replies, heartbeats, expiries and losses come in any order. -/
theorem guards_exclude_each_other (clients : Nat) (events : List SystemEvent) (system : System)
    (ran : (new (.newShared clients (clients / 2 + 1))).steps events = some system)
    (first second : Nat) (different : first ≠ second) (left right : LockType)
    (leftInForce : system.InForce first left) (rightInForce : system.InForce second right) :
    left = .shared ∧ right = .shared := by
  by_contra notShared
  have sound := steps_sound (new_sound _) ran
  have sameLock : system.lock = .newShared clients (clients / 2 + 1) := steps_lock ran
  obtain ⟨leftServers, leftDistinct, leftQuorum, leftKnown, leftLeases⟩ :=
    in_force_leases sound leftInForce
  obtain ⟨rightServers, rightDistinct, rightQuorum, rightKnown, rightLeases⟩ :=
    in_force_leases sound rightInForce
  have overlap := quorums_overlap clients notShared
  rw [← sameLock] at overlap
  have sameClients : system.lock.clients = clients := congrArg DistributedLock.clients sameLock
  obtain ⟨server, inLeft, inRight⟩ := Library.Quorum.exists_common_member leftDistinct rightDistinct
    leftKnown rightKnown (by rw [length_range]; omega)
  obtain ⟨lease, isLease, isFirst, leftType⟩ := leftLeases server inLeft
  obtain ⟨other, isOther, isSecond, rightType⟩ := rightLeases server inRight
  have both := LocalClient.shared_of_two isLease isOther (by rw [isFirst, isSecond]; exact different)
  exact notShared ⟨leftType.symm.trans both.1, rightType.symm.trans both.2⟩

/-- A reader renews its leases on two of three servers and outlives their first term;
another reader joins it. -/
def twoReaders : List SystemEvent :=
  [.start .shared 10 none, .send 0 (.acquire 0 0 .shared 10), .send 0 (.acquire 0 1 .shared 10),
    .serve (.acquire 0 1 .shared 10), .serve (.acquire 0 0 .shared 10), .act 0 (.granted 1),
    .act 0 (.granted 0), .act 0 .acquired, .act 0 (.beat .proceed), .advance 4,
    .act 0 (.beat .tick), .act 0 (.beat .proceed), .act 0 (.beat .proceed), .act 0 (.beat .proceed),
    .act 0 (.beat .proceed), .send 0 (.refresh 0 1 4), .serve (.refresh 0 1 4),
    .act 0 (.beat (.answer 0 4 (some true))), .act 0 (.beat .proceed), .send 0 (.refresh 0 0 4),
    .serve (.refresh 0 0 4), .act 0 (.beat (.answer 1 4 (some true))), .act 0 (.beat .proceed),
    .act 0 (.beat .proceed), .start .shared 10 none, .send 1 (.acquire 1 0 .shared 10),
    .send 1 (.acquire 1 1 .shared 10), .serve (.acquire 1 0 .shared 10),
    .serve (.acquire 1 1 .shared 10), .act 1 (.granted 0), .act 1 (.granted 1), .act 1 .acquired,
    .advance 8]

theorem two_readers_in_force :
    ∃ system, (new (.newShared 3 (3 / 2 + 1))).steps twoReaders = some system ∧
      system.InForce 0 .shared ∧ system.InForce 1 .shared ∧
      LockType.shared = .shared ∧ LockType.shared = .shared := by
  have readers : ∃ system, (new (.newShared 3 (3 / 2 + 1))).steps twoReaders = some system ∧
      system.InForce 0 .shared ∧ system.InForce 1 .shared :=
    ⟨_, rfl, ⟨_, _, rfl, rfl, rfl, rfl, by decide⟩,
      ⟨_, _, rfl, rfl, rfl, rfl, by decide⟩⟩
  obtain ⟨system, ran, first, second⟩ := readers
  exact ⟨system, ran, first, second,
    guards_exclude_each_other 3 twoReaders system ran 0 1 (by decide) _ _ first second⟩

end Rustfs.Lock.System
