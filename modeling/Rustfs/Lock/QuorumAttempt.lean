import Mathlib.Data.List.Nodup

/-!
# One attempt for a quorum of locks

`acquire_lock_quorum_once` of `lock/src/distributed_lock.rs` as a machine that is fed
the replies of the clients in the order in which their tasks complete, and the deadline
of the attempt. The cleanup of the stragglers is fed the replies that come after the
attempt has returned. Retries and back-offs of a release are left out: a release is
asked for once.
-/

namespace Rustfs.Lock

open List

inductive LockAcquireFailureKind
  | nonRetryable
  | retryableContention
  | unrecoverableQuorum
  deriving DecidableEq

def hasCaseInsensitivePrefix (error expected : String) : Bool :=
  (error.toList.take expected.length).map Char.toLower = expected.toList.map Char.toLower

def remoteLockRpcFailedText : String := "remote lock rpc failed:"
def remoteLockRpcTimedOutText : String := "remote lock rpc timed out:"
def unrecoverableQuorumFailureText : String := "unrecoverable quorum failure"

def isRemoteLockRpcFailure (error : String) : Bool :=
  hasCaseInsensitivePrefix error remoteLockRpcFailedText ||
    hasCaseInsensitivePrefix error remoteLockRpcTimedOutText

def isRemoteLockRpcTimeout (error : String) : Bool :=
  hasCaseInsensitivePrefix error remoteLockRpcTimedOutText

def mentionsTimeout (error : String) : Bool :=
  (error.toList.map Char.toLower).tails.any fun rest => "timeout".toList.isPrefixOf rest

def classifyLockFailure (error : String) : LockAcquireFailureKind :=
  if hasCaseInsensitivePrefix error unrecoverableQuorumFailureText then .unrecoverableQuorum
  else if mentionsTimeout error || isRemoteLockRpcFailure error then .retryableContention
  else .nonRetryable

def classifyLockErrorFailure (retryable : Bool) (error : String) : LockAcquireFailureKind :=
  if retryable then .retryableContention else classifyLockFailure error

section Machine

variable {Id : Type}

/-- What a client's task comes back with. -/
inductive Reply (Id : Type)
  | grant (lockId : Option Id)
  | refusal (error : Option String)
  | error (retryable : Bool) (text : String)
  | taskFailure (text : String)

structure HeldLockEntry (Id : Type) where
  lockId : Id
  client : Nat
  validUntil : Nat

/-- What a release task gets. -/
def HeldLockEntry.releaseEntry (entry : HeldLockEntry Id) : Id × Nat := (entry.lockId, entry.client)

/-- The local variables of the function. The clients are numbered; `asked` logs the
requests in the order they are sent. -/
structure Attempt (Id : Type) where
  clients : Nat
  quorum : Nat
  fallbackLockId : Id
  validUntil : Nat
  pending : List Nat
  nextClientIndex : Nat
  asked : List Nat
  individualLocks : List (HeldLockEntry Id)
  lastFailure : Option String
  lastFailureKind : Option LockAcquireFailureKind
  lastHardFailureKind : Option LockAcquireFailureKind
  hardFailures : Nat

structure LockAcquireQuorumResult (Id : Type) where
  success : Bool
  error : Option String
  individualLocks : List (HeldLockEntry Id)
  failureKind : Option LockAcquireFailureKind
  quorumImpossible : Bool

/-- A run of the function, and of the tasks it has spawned: its result once it has
returned, and what was handed to release tasks. The pending clients of a returned run
belong to the cleanup of the stragglers. -/
structure Run (Id : Type) where
  attempt : Attempt Id
  result : Option (LockAcquireQuorumResult Id)
  released : List (Id × Nat)

inductive Event (Id : Type)
  /-- The task of a client completes. -/
  | reply (client : Nat) (reply : Reply Id)
  /-- The time of the attempt is over, before or during a wait. -/
  | deadline

def lockAcquireSpareHedges : Nat := 1

namespace Attempt

def spawnNext (attempt : Attempt Id) : Attempt Id :=
  { attempt with
    pending := attempt.pending ++ [attempt.nextClientIndex]
    nextClientIndex := attempt.nextClientIndex + 1
    asked := attempt.asked ++ [attempt.nextClientIndex] }

/-- The loop that sends requests; every round adds one to the pending tasks. -/
def spawnRounds (target : Nat) : (rounds : Nat) → Attempt Id → Attempt Id
  | 0, attempt => attempt
  | rounds + 1, attempt =>
    if attempt.pending.length < target ∧ attempt.nextClientIndex < attempt.clients then
      spawnRounds target rounds attempt.spawnNext
    else attempt

def spawnLockRequestsUntil (attempt : Attempt Id) (target : Nat) : Attempt Id :=
  spawnRounds target target attempt

def grantedId (attempt : Attempt Id) (lockId : Option Id) : Id :=
  lockId.getD attempt.fallbackLockId

def failed (attempt : Attempt Id) (hard : Bool) (error : String) (kind : LockAcquireFailureKind) :
    Attempt Id :=
  { attempt with
    lastFailure := some error
    lastFailureKind := some kind
    lastHardFailureKind := if hard then some kind else attempt.lastHardFailureKind
    hardFailures := attempt.hardFailures + if hard then 1 else 0 }

/-- The completion of a task that was pending. -/
def record (attempt : Attempt Id) (client : Nat) : Reply Id → Attempt Id
  | .grant lockId =>
    { attempt with
      individualLocks := attempt.individualLocks ++
        [⟨attempt.grantedId lockId, client, attempt.validUntil⟩] }
  | .refusal error =>
    let error := error.getD "unknown error"
    attempt.failed (isRemoteLockRpcFailure error && !isRemoteLockRpcTimeout error) error
      (classifyLockFailure error)
  | .error retryable text => attempt.failed true text (classifyLockErrorFailure retryable text)
  | .taskFailure text => attempt.failed true text .nonRetryable

def completed (attempt : Attempt Id) (client : Nat) : Attempt Id :=
  { attempt with pending := attempt.pending.erase client }

def withLastFailure (error : String) (lastFailure : Option String) : String :=
  match lastFailure with
  | some failure => error ++ "; last failure: " ++ failure
  | none => error

def countsText (attempt : Attempt Id) : String :=
  s!"{attempt.individualLocks.length}/{attempt.quorum} required"

/-- An exit without the lock: what is held is handed to a release task. -/
def rollback (attempt : Attempt Id) (entries : List (HeldLockEntry Id)) (error : String)
    (failureKind : LockAcquireFailureKind) (quorumImpossible : Bool) : Run Id :=
  ⟨attempt, some ⟨false, some error, entries, some failureKind, quorumImpossible⟩,
    attempt.individualLocks.map HeldLockEntry.releaseEntry⟩

def timeoutExit (attempt : Attempt Id) : Run Id :=
  match attempt.lastFailureKind with
  | some .nonRetryable =>
    attempt.rollback attempt.individualLocks
      (withLastFailure "Lock acquisition timeout" attempt.lastFailure) .nonRetryable false
  | some .unrecoverableQuorum =>
    attempt.rollback attempt.individualLocks
      (withLastFailure "Lock acquisition timeout" attempt.lastFailure) .unrecoverableQuorum true
  | _ => attempt.rollback [] "Lock acquisition timeout" .retryableContention false

def hardFailureExit (attempt : Attempt Id) : Run Id :=
  attempt.rollback attempt.individualLocks
    (withLastFailure (s!"Unrecoverable quorum failure: {attempt.countsText}; " ++
      s!"{attempt.hardFailures} clients failed") attempt.lastFailure)
    (attempt.lastHardFailureKind.getD .unrecoverableQuorum) true

def successExit (attempt : Attempt Id) : Run Id :=
  ⟨attempt, some ⟨true, none, attempt.individualLocks, none, false⟩, []⟩

def impossibleExit (attempt : Attempt Id) : Run Id :=
  let error := s!"Failed to acquire quorum: {attempt.countsText}"
  if 0 < attempt.hardFailures then
    attempt.rollback attempt.individualLocks
      (withLastFailure (s!"Unrecoverable quorum failure: {attempt.countsText}; " ++
        s!"{attempt.hardFailures} clients failed; {error}") attempt.lastFailure)
      (attempt.lastHardFailureKind.getD .unrecoverableQuorum) true
  else
    attempt.rollback attempt.individualLocks (withLastFailure error attempt.lastFailure)
      .retryableContention false

def exhaustedExit (attempt : Attempt Id) : Run Id :=
  attempt.rollback attempt.individualLocks
    (withLastFailure s!"Failed to acquire quorum: {attempt.countsText}" attempt.lastFailure)
    (if 0 < attempt.hardFailures then attempt.lastHardFailureKind.getD .unrecoverableQuorum
      else attempt.lastFailureKind.getD .retryableContention)
    (0 < attempt.hardFailures)

/-- The head of the loop: without a pending task the attempt is over. -/
def waiting (attempt : Attempt Id) : Run Id :=
  if attempt.pending.isEmpty then attempt.exhaustedExit else ⟨attempt, none, []⟩

/-- The rest of a round, once a reply is recorded. -/
def afterReply (attempt : Attempt Id) : Run Id :=
  if attempt.clients - attempt.hardFailures < attempt.quorum then attempt.hardFailureExit
  else if attempt.quorum ≤ attempt.individualLocks.length then attempt.successExit
  else
    let needed := attempt.quorum - attempt.individualLocks.length
    let attempt := attempt.spawnLockRequestsUntil (needed + lockAcquireSpareHedges)
    if attempt.individualLocks.length + attempt.pending.length +
        (attempt.clients - attempt.nextClientIndex) < attempt.quorum then attempt.impossibleExit
    else attempt.waiting

end Attempt

namespace Run

def start (clients quorum : Nat) (fallbackLockId : Id) (validUntil : Nat) : Run Id :=
  let attempt : Attempt Id :=
    ⟨clients, quorum, fallbackLockId, validUntil, [], 0, [], [], none, none, none, 0⟩
  (attempt.spawnLockRequestsUntil (min (quorum + lockAcquireSpareHedges) clients)).waiting

def lateRelease (attempt : Attempt Id) (client : Nat) : Reply Id → List (Id × Nat)
  | .grant lockId => [(attempt.grantedId lockId, client)]
  | _ => []

/-- One event. Tasks complete once, and the deadline ends a run that has not
returned. -/
def step (run : Run Id) : Event Id → Option (Run Id)
  | .deadline =>
    match run.result with
    | none => some run.attempt.timeoutExit
    | some _ => none
  | .reply client reply =>
    if client ∈ run.attempt.pending then
      match run.result with
      | none => some ((run.attempt.completed client).record client reply).afterReply
      | some _ => some
          { run with
            attempt := run.attempt.completed client
            released := run.released ++ lateRelease run.attempt client reply }
    else none

def steps (run : Run Id) : List (Event Id) → Option (Run Id)
  | [] => some run
  | event :: rest => (run.step event).bind fun next => next.steps rest

end Run

/-- The grants among the events, as the release tasks know them. -/
def grants (fallbackLockId : Id) : List (Event Id) → List (Id × Nat)
  | [] => []
  | .reply client (.grant lockId) :: rest =>
    (lockId.getD fallbackLockId, client) :: grants fallbackLockId rest
  | _ :: rest => grants fallbackLockId rest

theorem grants_append (fallbackLockId : Id) (before after : List (Event Id)) :
    grants fallbackLockId (before ++ after) =
      grants fallbackLockId before ++ grants fallbackLockId after := by
  induction before with
  | nil => rfl
  | cons event before ih =>
    cases event with
    | deadline => exact ih
    | reply client reply =>
      cases reply with
      | grant lockId => exact congrArg (_ :: ·) ih
      | refusal error | error retryable text | taskFailure text => exact ih

/-- Requests, pending tasks and grants of an attempt. Clients are asked in the order of their
indexes, each of them once. -/
structure Attempt.Sound (attempt : Attempt Id) (granted : List (Id × Nat)) : Prop where
  asked : attempt.asked = List.range attempt.nextClientIndex
  bounded : attempt.nextClientIndex ≤ attempt.clients
  pendingAsked : ∀ client ∈ attempt.pending, client < attempt.nextClientIndex
  grantedAsked : ∀ grant ∈ granted, grant.2 < attempt.nextClientIndex
  distinct : (granted.map Prod.snd ++ attempt.pending).Nodup

/-- What a run holds and has released adds up to its grants. Before the result everything is held;
after it a grant is kept or released, never both. -/
structure Run.Accounts (run : Run Id) (granted : List (Id × Nat)) : Prop where
  sound : run.attempt.Sound granted
  held : run.result = none →
    run.attempt.individualLocks.map HeldLockEntry.releaseEntry = granted ∧ run.released = []
  succeeded : ∀ result, run.result = some result → result.success = true →
    run.attempt.quorum ≤ result.individualLocks.length ∧
      result.individualLocks.map HeldLockEntry.releaseEntry ++ run.released = granted
  failed : ∀ result, run.result = some result → result.success = false → run.released = granted

/-- The parameters of a run stay as they are. -/
structure Attempt.SameRequest (before after : Attempt Id) : Prop where
  clients : after.clients = before.clients
  quorum : after.quorum = before.quorum
  fallbackLockId : after.fallbackLockId = before.fallbackLockId
  validUntil : after.validUntil = before.validUntil

namespace Attempt

variable {attempt other : Attempt Id} {granted : List (Id × Nat)} {client : Nat}

theorem SameRequest.refl (attempt : Attempt Id) : SameRequest attempt attempt := ⟨rfl, rfl, rfl, rfl⟩

theorem SameRequest.trans {third : Attempt Id} (first : SameRequest attempt other)
    (second : SameRequest other third) : SameRequest attempt third where
  clients := second.clients.trans first.clients
  quorum := second.quorum.trans first.quorum
  fallbackLockId := second.fallbackLockId.trans first.fallbackLockId
  validUntil := second.validUntil.trans first.validUntil

theorem spawn_next_sound (sound : attempt.Sound granted)
    (more : attempt.nextClientIndex < attempt.clients) : attempt.spawnNext.Sound granted := by
  refine ⟨?_, more, ?_, ?_, ?_⟩
  · unfold spawnNext
    rw [sound.asked, range_succ]
  · intro client member
    rcases mem_append.1 member with earlier | new
    · exact Nat.lt_succ_of_lt (sound.pendingAsked client earlier)
    · rw [mem_singleton.1 new]
      exact Nat.lt_succ_self _
  · intro grant member
    exact Nat.lt_succ_of_lt (sound.grantedAsked grant member)
  · unfold spawnNext
    rw [← append_assoc, nodup_append]
    refine ⟨sound.distinct, nodup_singleton _, ?_⟩
    intro client member other isNew same
    rw [mem_singleton.1 isNew] at same
    rcases mem_append.1 member with isGranted | isPending
    · obtain ⟨grant, isGrant, rfl⟩ := mem_map.1 isGranted
      have asked := sound.grantedAsked grant isGrant
      omega
    · have asked := sound.pendingAsked client isPending
      omega

theorem spawn_sound (target rounds : Nat) (sound : attempt.Sound granted) :
    (attempt.spawnRounds target rounds).Sound granted := by
  induction rounds generalizing attempt with
  | zero => exact sound
  | succ rounds ih =>
    unfold spawnRounds
    split
    · rename_i more
      exact ih (spawn_next_sound sound more.2)
    · exact sound

theorem spawn_request (target rounds : Nat) (attempt : Attempt Id) :
    SameRequest attempt (attempt.spawnRounds target rounds) := by
  induction rounds generalizing attempt with
  | zero => exact .refl attempt
  | succ rounds ih =>
    unfold spawnRounds
    split
    · have next : SameRequest attempt attempt.spawnNext := ⟨rfl, rfl, rfl, rfl⟩
      exact next.trans (ih attempt.spawnNext)
    · exact .refl attempt

theorem spawn_held (target rounds : Nat) (attempt : Attempt Id) :
    (attempt.spawnRounds target rounds).individualLocks = attempt.individualLocks := by
  induction rounds generalizing attempt with
  | zero => rfl
  | succ rounds ih =>
    unfold spawnRounds
    split
    · exact ih attempt.spawnNext
    · rfl

theorem record_request (reply : Reply Id) :
    SameRequest attempt ((attempt.completed client).record client reply) := by
  cases reply with
  | grant lockId => exact ⟨rfl, rfl, rfl, rfl⟩
  | refusal error | error retryable text | taskFailure text => exact ⟨rfl, rfl, rfl, rfl⟩

/-- A pending task that completes moves from the pending clients to the grants, or is
gone. -/
theorem completed_sound (sound : attempt.Sound granted) (member : client ∈ attempt.pending)
    (reply : Reply Id) :
    (attempt.completed client).Sound (granted ++ Run.lateRelease attempt client reply) := by
  have erased : (granted.map Prod.snd ++ attempt.pending.erase client).Nodup :=
    sound.distinct.sublist (List.Sublist.append_left erase_sublist _)
  refine ⟨sound.asked, sound.bounded, ?_, ?_, ?_⟩
  · intro other later
    exact sound.pendingAsked other (mem_of_mem_erase later)
  · intro grant isGrant
    rcases mem_append.1 isGrant with earlier | new
    · exact sound.grantedAsked grant earlier
    · cases reply with
      | grant lockId =>
        rw [mem_singleton.1 new]
        exact sound.pendingAsked client member
      | refusal error | error retryable text | taskFailure text => cases new
  · cases reply with
    | grant lockId =>
      have moved : (granted.map Prod.snd ++ client :: attempt.pending.erase client).Nodup :=
        ((perm_cons_erase member).append_left _).nodup_iff.1 sound.distinct
      simpa [Run.lateRelease, completed] using moved
    | refusal error => simpa [Run.lateRelease, completed] using erased
    | error retryable text | taskFailure text => simpa [Run.lateRelease, completed] using erased

theorem record_sound (sound : attempt.Sound granted) (member : client ∈ attempt.pending)
    (reply : Reply Id) :
    ((attempt.completed client).record client reply).Sound
      (granted ++ Run.lateRelease attempt client reply) := by
  obtain ⟨asked, bounded, pendingAsked, grantedAsked, distinct⟩ := completed_sound sound member reply
  cases reply with
  | grant lockId => exact ⟨asked, bounded, pendingAsked, grantedAsked, distinct⟩
  | refusal error => exact ⟨asked, bounded, pendingAsked, grantedAsked, distinct⟩
  | error retryable text => exact ⟨asked, bounded, pendingAsked, grantedAsked, distinct⟩
  | taskFailure text => exact ⟨asked, bounded, pendingAsked, grantedAsked, distinct⟩

theorem record_held (reply : Reply Id) :
    ((attempt.completed client).record client reply).individualLocks.map HeldLockEntry.releaseEntry =
      attempt.individualLocks.map HeldLockEntry.releaseEntry ++
        Run.lateRelease attempt client reply := by
  cases reply with
  | grant lockId => simp [record, completed, Run.lateRelease, HeldLockEntry.releaseEntry, grantedId]
  | refusal error => simp [record, completed, Run.lateRelease, failed]
  | error retryable text | taskFailure text => simp [record, completed, Run.lateRelease, failed]

section

variable (sound : attempt.Sound granted)
  (held : attempt.individualLocks.map HeldLockEntry.releaseEntry = granted)

include sound held

theorem rollback_accounts
    (entries : List (HeldLockEntry Id)) (error : String) (kind : LockAcquireFailureKind)
    (impossible : Bool) : (attempt.rollback entries error kind impossible).Accounts granted where
  sound := sound
  held := fun running => by cases running
  succeeded := fun result returned success => by
    cases returned
    cases success
  failed := fun _ _ _ => held

theorem success_accounts (reached : attempt.quorum ≤ attempt.individualLocks.length) :
    attempt.successExit.Accounts granted where
  sound := sound
  held := fun running => by cases running
  succeeded := fun result returned _ => by
    cases returned
    exact ⟨reached, (append_nil _).trans held⟩
  failed := fun result returned failure => by
    cases returned
    cases failure

theorem timeout_accounts : attempt.timeoutExit.Accounts granted := by
  unfold timeoutExit
  split
  all_goals exact rollback_accounts sound held _ _ _ _

theorem waiting_accounts : attempt.waiting.Accounts granted := by
  unfold waiting
  split
  · exact rollback_accounts sound held _ _ _ _
  · refine ⟨sound, fun _ => ⟨held, rfl⟩, ?_, ?_⟩
    all_goals
      intro result returned
      cases returned

theorem after_reply_accounts : attempt.afterReply.Accounts granted := by
  unfold afterReply
  split
  · exact rollback_accounts sound held _ _ _ _
  split
  · rename_i reached
    exact success_accounts sound held reached
  have spawned := spawn_sound
    (attempt.quorum - attempt.individualLocks.length + lockAcquireSpareHedges)
    (attempt.quorum - attempt.individualLocks.length + lockAcquireSpareHedges) sound
  have spawnedHeld : (attempt.spawnLockRequestsUntil (attempt.quorum -
      attempt.individualLocks.length + lockAcquireSpareHedges)).individualLocks.map
        HeldLockEntry.releaseEntry = granted := by
    unfold spawnLockRequestsUntil
    rw [spawn_held]
    exact held
  dsimp only
  split
  · unfold impossibleExit
    split
    all_goals exact rollback_accounts spawned spawnedHeld _ _ _ _
  · exact waiting_accounts spawned spawnedHeld

end

end Attempt

namespace Run

variable {run next : Run Id} {granted : List (Id × Nat)} {event : Event Id}

theorem start_accounts (clients quorum : Nat) (fallbackLockId : Id) (validUntil : Nat) :
    (start clients quorum fallbackLockId validUntil).Accounts [] := by
  apply Attempt.waiting_accounts
  · apply Attempt.spawn_sound
    exact ⟨rfl, Nat.zero_le _, by simp, by simp, by simp⟩
  · unfold Attempt.spawnLockRequestsUntil
    rw [Attempt.spawn_held]
    rfl

theorem step_cases (stepped : run.step event = some next) :
    (event = .deadline ∧ run.result = none ∧ next = run.attempt.timeoutExit) ∨
    (∃ client reply, event = .reply client reply ∧ client ∈ run.attempt.pending ∧
      run.result = none ∧
      next = ((run.attempt.completed client).record client reply).afterReply) ∨
    ∃ client reply result, event = .reply client reply ∧ client ∈ run.attempt.pending ∧
      run.result = some result ∧
      next = { run with
        attempt := run.attempt.completed client
        released := run.released ++ lateRelease run.attempt client reply } := by
  cases event with
  | deadline =>
    dsimp only [step] at stepped
    cases returned : run.result with
    | some result =>
      rw [returned] at stepped
      cases stepped
    | none =>
      rw [returned] at stepped
      exact .inl ⟨rfl, rfl, (Option.some.inj stepped).symm⟩
  | reply client reply =>
    dsimp only [step] at stepped
    by_cases member : client ∈ run.attempt.pending
    · rw [if_pos member] at stepped
      cases returned : run.result with
      | none =>
        rw [returned] at stepped
        exact .inr (.inl ⟨client, reply, rfl, member, rfl, (Option.some.inj stepped).symm⟩)
      | some result =>
        rw [returned] at stepped
        exact .inr (.inr ⟨client, reply, result, rfl, member, rfl, (Option.some.inj stepped).symm⟩)
    · rw [if_neg member] at stepped
      cases stepped

theorem grants_reply (fallbackLockId : Id) (attempt : Attempt Id)
    (same : attempt.fallbackLockId = fallbackLockId) (client : Nat) (reply : Reply Id) :
    grants fallbackLockId [.reply client reply] = lateRelease attempt client reply := by
  subst same
  cases reply with
  | grant lockId | refusal error | error retryable text | taskFailure text => rfl

theorem step_accounts (accounts : run.Accounts granted) (stepped : run.step event = some next) :
    next.Accounts (granted ++ grants run.attempt.fallbackLockId [event]) := by
  rcases step_cases stepped with ⟨rfl, running, rfl⟩ | ⟨client, reply, rfl, member, running, rfl⟩ |
      ⟨client, reply, result, rfl, member, returned, rfl⟩
  · rw [show grants run.attempt.fallbackLockId [.deadline] = [] from rfl, append_nil]
    exact Attempt.timeout_accounts accounts.sound (accounts.held running).1
  · rw [grants_reply _ run.attempt rfl]
    apply Attempt.after_reply_accounts (Attempt.record_sound accounts.sound member reply)
    rw [Attempt.record_held, (accounts.held running).1]
  · rw [grants_reply _ run.attempt rfl]
    refine ⟨Attempt.completed_sound accounts.sound member reply, ?_, ?_, ?_⟩
    · intro running
      exact absurd (running.symm.trans returned) (by simp)
    · intro other isOther success
      obtain ⟨reached, added⟩ := accounts.succeeded other isOther success
      refine ⟨reached, ?_⟩
      rw [← append_assoc, added]
    · intro other isOther failure
      rw [accounts.failed other isOther failure]

theorem timeout_attempt (attempt : Attempt Id) : attempt.timeoutExit.attempt = attempt := by
  unfold Attempt.timeoutExit
  split
  all_goals rfl

theorem waiting_attempt (attempt : Attempt Id) : attempt.waiting.attempt = attempt := by
  unfold Attempt.waiting
  split
  all_goals rfl

theorem after_reply_request (attempt : Attempt Id) :
    Attempt.SameRequest attempt attempt.afterReply.attempt := by
  unfold Attempt.afterReply
  split
  · exact .refl attempt
  split
  · exact .refl attempt
  dsimp only
  have spawned := Attempt.spawn_request
    (attempt.quorum - attempt.individualLocks.length + lockAcquireSpareHedges)
    (attempt.quorum - attempt.individualLocks.length + lockAcquireSpareHedges) attempt
  split
  · unfold Attempt.impossibleExit
    split
    all_goals exact spawned
  · rw [waiting_attempt]
    exact spawned

theorem step_request (stepped : run.step event = some next) :
    Attempt.SameRequest run.attempt next.attempt := by
  rcases step_cases stepped with ⟨rfl, _, rfl⟩ | ⟨client, reply, rfl, _, _, rfl⟩ |
      ⟨client, reply, result, rfl, _, _, rfl⟩
  · rw [timeout_attempt]
    exact .refl _
  · exact (Attempt.record_request reply).trans (after_reply_request _)
  · exact ⟨rfl, rfl, rfl, rfl⟩

theorem steps_accounts {events : List (Event Id)} (accounts : run.Accounts granted)
    (ran : run.steps events = some next) :
    next.Accounts (granted ++ grants run.attempt.fallbackLockId events) ∧
      Attempt.SameRequest run.attempt next.attempt := by
  induction events generalizing run granted with
  | nil =>
    cases ran
    exact ⟨by simpa [grants] using accounts, .refl _⟩
  | cons event events ih =>
    obtain ⟨middle, stepped, rest⟩ := Option.bind_eq_some_iff.1 ran
    have request := step_request stepped
    obtain ⟨kept, later⟩ := ih (step_accounts accounts stepped) rest
    rw [request.fallbackLockId, append_assoc, ← grants_append] at kept
    exact ⟨kept, request.trans later⟩

theorem start_request (clients quorum : Nat) (fallbackLockId : Id) (validUntil : Nat) :
    (start clients quorum fallbackLockId validUntil).attempt.clients = clients ∧
      (start clients quorum fallbackLockId validUntil).attempt.quorum = quorum ∧
      (start clients quorum fallbackLockId validUntil).attempt.fallbackLockId = fallbackLockId := by
  unfold start
  rw [waiting_attempt]
  obtain ⟨sameClients, sameQuorum, sameId, _⟩ := Attempt.spawn_request
    (min (quorum + lockAcquireSpareHedges) clients)
    (min (quorum + lockAcquireSpareHedges) clients)
    ⟨clients, quorum, fallbackLockId, validUntil, [], 0, [], [], none, none, none, 0⟩
  exact ⟨sameClients, sameQuorum, sameId⟩

/-- The grants a run keeps: those of a successful result. -/
def kept (run : Run Id) : List (Id × Nat) :=
  match run.result with
  | some result =>
    if result.success then result.individualLocks.map HeldLockEntry.releaseEntry else []
  | none => []

theorem kept_released (accounts : run.Accounts granted) (returned : run.result ≠ none) :
    run.kept ++ run.released = granted := by
  unfold kept
  cases outcome : run.result with
  | none => exact absurd outcome returned
  | some result =>
    dsimp only
    cases success : result.success with
    | true => exact (accounts.succeeded result outcome success).2
    | false => exact accounts.failed result outcome success

end Run

end Machine

/-- One run asks no client twice, succeeds with a quorum of grants of distinct clients
only, and hands every grant it does not keep to a release task once. -/
theorem attempt_accounts_for_grants {Id : Type} [DecidableEq Id] (clients quorum : Nat)
    (fallbackLockId : Id) (validUntil : Nat) (events : List (Event Id)) (run : Run Id)
    (ran : (Run.start clients quorum fallbackLockId validUntil).steps events = some run) :
    (run.attempt.asked.Nodup ∧ ∀ client ∈ run.attempt.asked, client < clients) ∧
    (∀ result, run.result = some result → result.success = true →
      quorum ≤ result.individualLocks.length ∧
        (result.individualLocks.map HeldLockEntry.client).Nodup ∧
        ∀ entry ∈ result.individualLocks, entry.releaseEntry ∈ grants fallbackLockId events) ∧
    (run.result ≠ none → ∀ grant ∈ grants fallbackLockId events,
      run.released.count grant = if grant ∈ run.kept then 0 else 1) := by
  obtain ⟨sameClients, sameQuorum, sameId⟩ := Run.start_request clients quorum fallbackLockId validUntil
  obtain ⟨accounts, request⟩ := Run.steps_accounts
    (Run.start_accounts clients quorum fallbackLockId validUntil) ran
  rw [sameId, nil_append] at accounts
  have distinct : ((grants fallbackLockId events).map Prod.snd).Nodup :=
    accounts.sound.distinct.of_append_left
  refine ⟨⟨?_, ?_⟩, ?_, ?_⟩
  · rw [accounts.sound.asked]
    exact nodup_range
  · intro client member
    rw [accounts.sound.asked, mem_range] at member
    have bounded := accounts.sound.bounded
    rw [request.clients, sameClients] at bounded
    omega
  · intro result returned success
    obtain ⟨reached, added⟩ := accounts.succeeded result returned success
    rw [request.quorum, sameQuorum] at reached
    refine ⟨reached, ?_, ?_⟩
    · rw [← added, map_append, map_map] at distinct
      exact distinct.of_append_left
    · intro entry member
      rw [← added]
      exact mem_append_left _ (mem_map_of_mem member)
  · intro returned grant member
    have once : (grants fallbackLockId events).count grant = 1 :=
      count_eq_one_of_mem (List.Nodup.of_map _ distinct) member
    rw [← Run.kept_released accounts returned, List.count_append] at once
    split
    · rename_i isKept
      have present := count_pos_iff.2 isKept
      omega
    · rename_i notKept
      rw [count_eq_zero.2 notKept] at once
      omega

/-- Three clients, of which one answers after the quorum is reached. -/
theorem straggler_is_released :
    ∃ run, (Run.start 3 2 0 5).steps
        [.reply 2 (.grant none), .reply 0 (.grant none), .reply 1 (.grant (some 7))] = some run ∧
      run.released.count ((7, 1) : Nat × Nat) = if ((7, 1) : Nat × Nat) ∈ run.kept then 0 else 1 := by
  refine ⟨_, rfl, ?_⟩
  exact (attempt_accounts_for_grants 3 2 (0 : Nat) 5
    [.reply 2 (.grant none), .reply 0 (.grant none), .reply 1 (.grant (some 7))] _ rfl).2.2
    (by decide) (7, 1) (by decide)

end Rustfs.Lock
