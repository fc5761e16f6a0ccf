import Rustfs.Lock.QuorumAttempt

/-!
# When an attempt for a quorum succeeds

One attempt, with a fixed behaviour for every client: what it answers, or that it never does. The
attempt asks as many clients as it still needs grants, and one more. Clients that refuse or fail are
replaced by later ones, those that never answer are not, so two of them in the window keep the
attempt from the quorum. The time a client takes is left out: the replies come in any order before
the deadline.
-/

namespace Rustfs.Lock

open List

variable {Id : Type} {clients : Nat}

/-- What a client answers; `none` if it never does. -/
abbrev Behaviours (Id : Type) := Nat → Option (Reply Id)

namespace Behaviours

variable (behaviours : Behaviours Id)

def grants (client : Nat) : Bool :=
  match behaviours client with
  | some (.grant _) => true
  | _ => false

def silent (client : Nat) : Bool := (behaviours client).isNone

def stays (client : Nat) : Bool := behaviours.grants client || behaviours.silent client

def granting (clients : Nat) : Nat := (List.range clients).countP behaviours.grants

/-- The first clients that neither refuse nor fail, one more than the quorum. -/
def window (clients quorum : Nat) : List Nat :=
  ((List.range clients).filter behaviours.stays).take (quorum + 1)

/-- The window has one client at most that never answers. For a quorum of none the only
client that is asked has to answer. -/
def Answers (clients quorum : Nat) : Prop :=
  (0 < quorum ∧ (behaviours.window clients quorum).countP behaviours.silent ≤ 1) ∨
    (quorum = 0 ∧ 0 < clients ∧ behaviours.silent 0 = false)

end Behaviours

/-- Clients answer as they behave, and the deadline fires when no client that answers
has an outstanding request. -/
def Fair (behaviours : Behaviours Id) (run : Run Id) : Event Id → Prop
  | .reply client reply => behaviours client = some reply
  | .deadline => ∀ client ∈ run.attempt.pending, behaviours client = none

/-- In every order of answers the run returns, and returns a success. -/
inductive EndsInSuccess (behaviours : Behaviours Id) : Run Id → Prop
  | returned {run : Run Id} (result : LockAcquireQuorumResult Id)
      (isResult : run.result = some result) (success : result.success = true) :
      EndsInSuccess behaviours run
  | running {run : Run Id} (isRunning : run.result = none)
      (goesOn : ∃ event next, Fair behaviours run event ∧ run.step event = some next)
      (everyOrder : ∀ event next, Fair behaviours run event → run.step event = some next →
        EndsInSuccess behaviours next) : EndsInSuccess behaviours run

namespace Attempt

variable {attempt : Attempt Id}

/-- The requests of a refill go to the next clients, up to the target or to the last client. -/
theorem spawn_rounds_spec (target : Nat) (rounds : Nat) (attempt : Attempt Id)
    (enough : target ≤ attempt.pending.length + rounds)
    (bounded : attempt.nextClientIndex ≤ attempt.clients) :
    ∃ count, attempt.spawnRounds target rounds =
        { attempt with
          pending := attempt.pending ++ List.range' attempt.nextClientIndex count
          nextClientIndex := attempt.nextClientIndex + count
          asked := attempt.asked ++ List.range' attempt.nextClientIndex count } ∧
      attempt.nextClientIndex + count ≤ attempt.clients ∧
      attempt.pending.length + count ≤ max attempt.pending.length target ∧
      (target ≤ attempt.pending.length + count ∨
        attempt.nextClientIndex + count = attempt.clients) := by
  induction rounds generalizing attempt with
  | zero =>
    refine ⟨0, ?_, bounded, Nat.le_max_left _ _, .inl enough⟩
    simp [spawnRounds]
  | succ rounds ih =>
    unfold spawnRounds
    by_cases more : attempt.pending.length < target ∧ attempt.nextClientIndex < attempt.clients
    · rw [if_pos more]
      have length : attempt.spawnNext.pending.length = attempt.pending.length + 1 := by
        simp [spawnNext]
      obtain ⟨count, spawned, inside, few, full⟩ := ih attempt.spawnNext (by omega) more.2
      refine ⟨count + 1, ?_, ?_, ?_, ?_⟩
      · rw [spawned]
        simp [spawnNext, List.range'_succ, Nat.add_assoc, Nat.add_comm 1 count]
      · change attempt.nextClientIndex + 1 + count ≤ attempt.clients at inside
        omega
      · rw [length] at few
        omega
      · rw [length] at full
        rcases full with reached | last
        · exact .inl (by omega)
        · change attempt.nextClientIndex + 1 + count = attempt.clients at last
          exact .inr (by omega)
    · rw [if_neg more]
      refine ⟨0, by simp, bounded, Nat.le_max_left _ _, ?_⟩
      omega

end Attempt

namespace Behaviours

variable {behaviours : Behaviours Id}

theorem count_range_add (counted : Nat → Bool) (first count : Nat) :
    (List.range (first + count)).countP counted =
      (List.range first).countP counted + (List.range' first count).countP counted := by
  have split : List.range (first + count) = List.range first ++ List.range' first count := by
    rw [List.range_eq_range', List.range_eq_range', ← List.range'_append_1, Nat.zero_add]
  rw [split, countP_append]

theorem count_range_le (counted : Nat → Bool) {first last : Nat} (order : first ≤ last) :
    (List.range last).countP counted ≤ (List.range first).countP counted + (last - first) := by
  obtain ⟨count, rfl⟩ := Nat.exists_eq_add_of_le order
  have bound := @countP_le_length _ counted (List.range' first count)
  rw [length_range'] at bound
  rw [count_range_add]
  omega

theorem not_both (behaviours : Behaviours Id) (client : Nat) :
    ¬(behaviours.grants client = true ∧ behaviours.silent client = true) := by
  unfold grants silent
  cases behaviours client with
  | none => simp
  | some reply => simp

theorem count_stays (behaviours : Behaviours Id) (clients : List Nat) :
    clients.countP behaviours.stays =
      clients.countP behaviours.grants + clients.countP behaviours.silent := by
  induction clients with
  | nil => rfl
  | cons client rest ih =>
    have apart := not_both behaviours client
    rw [countP_cons, countP_cons, countP_cons, ih]
    unfold stays
    cases granted : behaviours.grants client with
    | true =>
      cases isSilent : behaviours.silent client with
      | true => exact absurd ⟨granted, isSilent⟩ apart
      | false =>
        simp
        omega
    | false =>
      cases isSilent : behaviours.silent client with
      | true =>
        simp
        omega
      | false => simp

theorem asked_stays (behaviours : Behaviours Id) {asked : Nat} (order : asked ≤ clients) :
    (List.range asked).filter behaviours.stays <+: (List.range clients).filter behaviours.stays := by
  apply List.IsPrefix.filter
  obtain ⟨more, rfl⟩ := Nat.exists_eq_add_of_le order
  rw [range_add]
  exact prefix_append _ _

theorem count_filter_stays {counted : Nat → Bool} (clients : List Nat)
    (implied : ∀ client, counted client = true → behaviours.stays client = true) :
    (clients.filter behaviours.stays).countP counted = clients.countP counted := by
  rw [countP_filter]
  apply countP_congr
  intro client _
  rw [Bool.and_eq_true]
  exact ⟨fun both => both.1, fun isCounted => ⟨isCounted, implied client isCounted⟩⟩

theorem stays_of_grants (client : Nat) (granted : behaviours.grants client = true) :
    behaviours.stays client = true := by
  unfold stays
  rw [granted, Bool.true_or]

theorem stays_of_silent (client : Nat) (isSilent : behaviours.silent client = true) :
    behaviours.stays client = true := by
  unfold stays
  rw [isSilent, Bool.or_true]

end Behaviours

/-- What the counters of an attempt say about the clients that were asked. -/
structure Attempt.Window (behaviours : Behaviours Id) (attempt : Attempt Id) : Prop where
  bounded : attempt.nextClientIndex ≤ attempt.clients
  granted : (List.range attempt.nextClientIndex).countP behaviours.grants =
    attempt.individualLocks.length + attempt.pending.countP behaviours.grants
  silent : (List.range attempt.nextClientIndex).countP behaviours.silent =
    attempt.pending.countP behaviours.silent
  hard : attempt.individualLocks.length + attempt.pending.length + attempt.hardFailures ≤
    attempt.nextClientIndex
  few : attempt.individualLocks.length + attempt.pending.length ≤ attempt.quorum + 1

namespace Attempt

variable {behaviours : Behaviours Id} {attempt : Attempt Id} {client : Nat} {reply : Reply Id}

theorem spawn_window {target : Nat} (window : attempt.Window behaviours)
    (room : attempt.individualLocks.length + target ≤ attempt.quorum + 1) :
    (attempt.spawnLockRequestsUntil target).Window behaviours ∧
      (target ≤ (attempt.spawnLockRequestsUntil target).pending.length ∨
        (attempt.spawnLockRequestsUntil target).nextClientIndex = attempt.clients) ∧
      (attempt.spawnLockRequestsUntil target).pending.length +
          (attempt.clients - (attempt.spawnLockRequestsUntil target).nextClientIndex) =
        attempt.pending.length + (attempt.clients - attempt.nextClientIndex) := by
  obtain ⟨count, spawned, inside, few, full⟩ :=
    spawn_rounds_spec target target attempt (Nat.le_add_left _ _) window.bounded
  have granted := window.granted
  have silent := window.silent
  have hard := window.hard
  have bound := window.few
  unfold spawnLockRequestsUntil
  rw [spawned]
  dsimp only
  rw [length_append, length_range']
  refine ⟨⟨inside, ?_, ?_, ?_, ?_⟩, full, by omega⟩
  · dsimp only
    rw [Behaviours.count_range_add, countP_append]
    omega
  · rw [Behaviours.count_range_add, countP_append]
    omega
  all_goals
    dsimp only
    rw [length_append, length_range']
    omega

theorem record_window (window : attempt.Window behaviours) (member : client ∈ attempt.pending)
    (answered : behaviours client = some reply) :
    ((attempt.completed client).record client reply).Window behaviours ∧
      ((attempt.completed client).record client reply).pending.length + 1 = attempt.pending.length ∧
      ((attempt.completed client).record client reply).nextClientIndex = attempt.nextClientIndex := by
  have positive := length_pos_of_mem member
  have shorter : (attempt.pending.erase client).length = attempt.pending.length - 1 :=
    length_erase_of_mem member
  have counts (counted : Nat → Bool) : attempt.pending.countP counted =
      (attempt.pending.erase client).countP counted + if counted client then 1 else 0 := by
    rw [(perm_cons_erase member).countP_eq, countP_cons]
  have grantCount := counts behaviours.grants
  have silentCount := counts behaviours.silent
  have notSilent : behaviours.silent client = false := by
    unfold Behaviours.silent
    rw [answered]
    rfl
  rw [notSilent] at silentCount
  obtain ⟨bounded, granted, silent, hard, few⟩ := window
  have failedWindow (isHard : Bool) (error : String) (kind : LockAcquireFailureKind)
      (refused : behaviours.grants client = false) :
      ((attempt.completed client).failed isHard error kind).Window behaviours := by
    rw [refused] at grantCount
    have atMost : (if isHard = true then 1 else 0) ≤ 1 := by
      split
      · exact Nat.le_refl 1
      · exact Nat.zero_le 1
    refine ⟨bounded, ?_, ?_, ?_, ?_⟩
    · simp [failed, completed] at grantCount ⊢
      omega
    · simp [failed, completed] at silentCount ⊢
      omega
    all_goals
      simp only [failed, completed]
      omega
  cases reply with
  | grant lockId =>
    have grants : behaviours.grants client = true := by
      unfold Behaviours.grants
      rw [answered]
    rw [grants] at grantCount
    refine ⟨⟨bounded, ?_, ?_, ?_, ?_⟩, ?_, rfl⟩
    · simp [record, completed] at grantCount ⊢
      omega
    · simp [record, completed] at silentCount ⊢
      omega
    · simp only [record, completed, length_append, length_singleton]
      omega
    · simp only [record, completed, length_append, length_singleton]
      omega
    · simp only [record, completed]
      omega
  | refusal error | error retryable text | taskFailure text =>
    refine ⟨failedWindow _ _ _ ?_, ?_, rfl⟩
    · unfold Behaviours.grants
      rw [answered]
    · simp only [record, failed, completed]
      omega

theorem possible_grants (window : attempt.Window behaviours) :
    behaviours.granting attempt.clients ≤ attempt.individualLocks.length +
      attempt.pending.countP behaviours.grants + (attempt.clients - attempt.nextClientIndex) := by
  have bound := Behaviours.count_range_le behaviours.grants window.bounded
  rw [window.granted] at bound
  exact bound

/-- An attempt that waits for answers: it lacks grants, and its window is full or every
client was asked. -/
structure Open (behaviours : Behaviours Id) (attempt : Attempt Id) : Prop where
  window : attempt.Window behaviours
  lacking : attempt.individualLocks.length < attempt.quorum
  full : attempt.quorum + 1 ≤ attempt.individualLocks.length + attempt.pending.length ∨
    attempt.nextClientIndex = attempt.clients

/-- The requests and pending tasks that are left. -/
def left (attempt : Attempt Id) : Nat :=
  attempt.pending.length + (attempt.clients - attempt.nextClientIndex)

/-- The round after an answer ends in success or in a wait, as long as enough clients grant. -/
theorem after_reply_open (window : attempt.Window behaviours)
    (enough : attempt.quorum ≤ behaviours.granting attempt.clients) :
    attempt.afterReply = attempt.successExit ∨
      ∃ next : Attempt Id, attempt.afterReply = ⟨next, none, []⟩ ∧ next.Open behaviours ∧
        SameRequest attempt next ∧ next.left = attempt.left := by
  have possible := possible_grants window
  have pendingGrants := @countP_le_length _ behaviours.grants attempt.pending
  have hard := window.hard
  have bounded := window.bounded
  unfold afterReply
  rw [if_neg (show ¬attempt.clients - attempt.hardFailures < attempt.quorum by omega)]
  by_cases reached : attempt.quorum ≤ attempt.individualLocks.length
  · rw [if_pos reached]
    exact .inl rfl
  · rw [if_neg reached]
    dsimp only
    have room : attempt.individualLocks.length + (attempt.quorum - attempt.individualLocks.length +
        lockAcquireSpareHedges) ≤ attempt.quorum + 1 := by
      unfold lockAcquireSpareHedges
      omega
    obtain ⟨spawned, full, same⟩ := spawn_window window room
    have request : SameRequest attempt (attempt.spawnLockRequestsUntil
      (attempt.quorum - attempt.individualLocks.length + lockAcquireSpareHedges)) :=
      spawn_request _ _ attempt
    have held : (attempt.spawnLockRequestsUntil (attempt.quorum - attempt.individualLocks.length +
        lockAcquireSpareHedges)).individualLocks = attempt.individualLocks := spawn_held _ _ attempt
    unfold lockAcquireSpareHedges at *
    generalize attempt.spawnLockRequestsUntil _ = next at *
    have nextPossible := possible_grants spawned
    rw [request.clients] at nextPossible
    rw [held] at nextPossible
    rw [if_neg (by rw [held, request.clients, request.quorum]; omega)]
    have nonempty : next.pending ≠ [] := by
      intro empty
      rw [empty] at full nextPossible
      simp at full nextPossible
      omega
    refine .inr ⟨next, ?_, ⟨spawned, ?_, ?_⟩, request, ?_⟩
    · unfold waiting
      rw [if_neg (by simpa using nonempty)]
    · rw [held, request.quorum]
      omega
    · rw [held, request.quorum, request.clients]
      omega
    · unfold left
      rw [request.clients]
      exact same

/-- Some client with an outstanding request answers, unless two clients of the window are
silent. -/
theorem answer_outstanding (isOpen : attempt.Open behaviours)
    (enough : attempt.quorum ≤ behaviours.granting attempt.clients)
    (answers : (behaviours.window attempt.clients attempt.quorum).countP behaviours.silent ≤ 1) :
    ∃ client ∈ attempt.pending, ∃ reply, behaviours client = some reply := by
  by_contra noAnswer
  have allSilent : ∀ client ∈ attempt.pending, behaviours.silent client = true := by
    intro client member
    unfold Behaviours.silent
    cases answer : behaviours client with
    | none => rfl
    | some reply => exact absurd ⟨client, member, reply, answer⟩ noAnswer
  have silent := isOpen.window.silent
  rw [countP_eq_length.2 allSilent] at silent
  have noGrant : attempt.pending.countP behaviours.grants = 0 := by
    rw [countP_eq_zero]
    intro client member granted
    exact Behaviours.not_both behaviours client ⟨granted, allSilent client member⟩
  have granted := isOpen.window.granted
  rw [noGrant, Nat.add_zero] at granted
  have lacking := isOpen.lacking
  rcases isOpen.full with full | last
  · -- the asked clients that stay are the whole window, with all pending ones silent
    have few := isOpen.window.few
    have stays := Behaviours.count_stays behaviours (List.range attempt.nextClientIndex)
    rw [granted, silent, countP_eq_length_filter] at stays
    have first := Behaviours.asked_stays behaviours isOpen.window.bounded
    rw [prefix_iff_eq_take, stays, show attempt.individualLocks.length + attempt.pending.length =
      attempt.quorum + 1 by omega] at first
    unfold Behaviours.window at answers
    rw [← first, Behaviours.count_filter_stays _ Behaviours.stays_of_silent, silent] at answers
    omega
  · unfold Behaviours.granting at enough
    rw [← last, granted] at enough
    omega

theorem blocked_lacks (window : attempt.Window behaviours)
    (blocked : ¬(behaviours.window attempt.clients attempt.quorum).countP behaviours.silent ≤ 1) :
    attempt.individualLocks.length < attempt.quorum := by
  have granted := window.granted
  have silent := window.silent
  have few := window.few
  have pendingStays := Behaviours.count_stays behaviours attempt.pending
  have pendingLength := @countP_le_length _ behaviours.stays attempt.pending
  have stays := Behaviours.count_stays behaviours (List.range attempt.nextClientIndex)
  rw [countP_eq_length_filter] at stays
  have first : (List.range attempt.nextClientIndex).filter behaviours.stays <+:
      behaviours.window attempt.clients attempt.quorum := by
    apply prefix_take_iff.2
    exact ⟨Behaviours.asked_stays behaviours window.bounded, by omega⟩
  have grants := @List.Sublist.countP_le _ behaviours.grants _ _ first.sublist
  rw [Behaviours.count_filter_stays _ Behaviours.stays_of_grants] at grants
  have windowStays := Behaviours.count_stays behaviours (behaviours.window attempt.clients attempt.quorum)
  have windowCount := @countP_le_length _ behaviours.stays
    (behaviours.window attempt.clients attempt.quorum)
  have windowLength : (behaviours.window attempt.clients attempt.quorum).length ≤ attempt.quorum + 1 :=
    length_take_le _ _
  omega

end Attempt

namespace Run

variable {behaviours : Behaviours Id} {run next : Run Id} {attempt : Attempt Id}

theorem open_ends_in_success {quorum : Nat} (enough : quorum ≤ behaviours.granting clients)
    (answers : (behaviours.window clients quorum).countP behaviours.silent ≤ 1) (left : Nat) :
    ∀ attempt : Attempt Id, attempt.clients = clients → attempt.quorum = quorum →
      attempt.Open behaviours → attempt.left = left →
      ∀ released, EndsInSuccess behaviours ⟨attempt, none, released⟩ := by
  induction left with
  | zero =>
    intro attempt isClients isQuorum isOpen isLeft released
    subst isClients isQuorum
    obtain ⟨client, member, _⟩ := Attempt.answer_outstanding isOpen enough answers
    have positive := length_pos_of_mem member
    unfold Attempt.left at isLeft
    omega
  | succ left ih =>
    intro attempt isClients isQuorum isOpen isLeft released
    subst isClients isQuorum
    obtain ⟨client, member, reply, answered⟩ := Attempt.answer_outstanding isOpen enough answers
    refine .running rfl ?_ ?_
    · refine ⟨.reply client reply, ((attempt.completed client).record client reply).afterReply,
        answered, ?_⟩
      exact if_pos member
    · intro event next fair stepped
      rcases step_cases stepped with ⟨rfl, _, _⟩ | ⟨asked, answer, rfl, pending, _, rfl⟩ |
          ⟨_, _, result, _, _, returned, _⟩
      · have noAnswer := fair client member
        rw [answered] at noAnswer
        cases noAnswer
      · obtain ⟨window, shorter, same⟩ := Attempt.record_window isOpen.window pending fair
        have request := @Attempt.record_request Id attempt asked answer
        generalize (attempt.completed asked).record asked answer = recorded at *
        have stillEnough : recorded.quorum ≤ behaviours.granting recorded.clients := by
          rw [request.quorum, request.clients]
          exact enough
        rcases Attempt.after_reply_open window stillEnough with success | ⟨next, waits, opened, later, equal⟩
        · rw [success]
          exact .returned _ rfl rfl
        · rw [waits]
          apply ih next (later.clients.trans request.clients) (later.quorum.trans request.quorum) opened
          unfold Attempt.left at equal isLeft ⊢
          rw [request.clients] at equal
          omega
      · cases returned

/-- The run has failed, or goes on without a chance. A second silent client in the window leaves
too few that can still grant. -/
def Hopeless (behaviours : Behaviours Id) (clients quorum : Nat) (run : Run Id) : Prop :=
  (∃ result, run.result = some result ∧ result.success = false) ∨
    (run.result = none ∧ run.attempt.Window behaviours ∧ run.attempt.clients = clients ∧
      run.attempt.quorum = quorum)

theorem timeout_hopeless (attempt : Attempt Id) (clients quorum : Nat) :
    attempt.timeoutExit.Hopeless behaviours clients quorum := by
  unfold Attempt.timeoutExit
  split
  all_goals exact .inl ⟨_, rfl, rfl⟩

theorem after_reply_hopeless (window : attempt.Window behaviours)
    (blocked : ¬(behaviours.window attempt.clients attempt.quorum).countP behaviours.silent ≤ 1) :
    attempt.afterReply.Hopeless behaviours attempt.clients attempt.quorum := by
  have lacking := Attempt.blocked_lacks window blocked
  unfold Attempt.afterReply
  split
  · exact .inl ⟨_, rfl, rfl⟩
  · rw [if_neg (Nat.not_le.2 lacking)]
    dsimp only
    have room : attempt.individualLocks.length + (attempt.quorum - attempt.individualLocks.length +
        lockAcquireSpareHedges) ≤ attempt.quorum + 1 := by
      unfold lockAcquireSpareHedges
      omega
    obtain ⟨spawned, _, _⟩ := Attempt.spawn_window window room
    have request := Attempt.spawn_request
      (attempt.quorum - attempt.individualLocks.length + lockAcquireSpareHedges)
      (attempt.quorum - attempt.individualLocks.length + lockAcquireSpareHedges) attempt
    split
    · unfold Attempt.impossibleExit
      split
      all_goals exact .inl ⟨_, rfl, rfl⟩
    · unfold Attempt.waiting
      split
      · exact .inl ⟨_, rfl, rfl⟩
      · exact .inr ⟨rfl, spawned, request.clients, request.quorum⟩

theorem hopeless_never_succeeds {quorum : Nat}
    (blocked : ¬(behaviours.window clients quorum).countP behaviours.silent ≤ 1)
    (ends : EndsInSuccess behaviours run) : ¬run.Hopeless behaviours clients quorum := by
  induction ends with
  | returned result isResult success =>
    rintro (⟨failed, isFailed, failure⟩ | ⟨isRunning, _⟩)
    · rw [isResult] at isFailed
      cases isFailed
      rw [success] at failure
      cases failure
    · rw [isResult] at isRunning
      cases isRunning
  | @running run isRunning goesOn everyOrder ih =>
    rintro (⟨failed, isFailed, _⟩ | ⟨_, window, isClients, isQuorum⟩)
    · rw [isRunning] at isFailed
      cases isFailed
    · obtain ⟨event, next, fair, stepped⟩ := goesOn
      apply ih event next fair stepped
      rcases step_cases stepped with ⟨rfl, _, rfl⟩ | ⟨asked, answer, rfl, pending, _, rfl⟩ |
          ⟨_, _, result, _, _, returned, _⟩
      · exact timeout_hopeless run.attempt clients quorum
      · obtain ⟨recorded, _, _⟩ := Attempt.record_window window pending fair
        have request := @Attempt.record_request Id run.attempt asked answer
        have hopeless := after_reply_hopeless recorded (by
          rw [request.clients, request.quorum, isClients, isQuorum]
          exact blocked)
        rw [request.clients, request.quorum, isClients, isQuorum] at hopeless
        exact hopeless
      · rw [isRunning] at returned
        cases returned

theorem start_open (behaviours : Behaviours Id) {quorum : Nat} (fallbackLockId : Id)
    (validUntil : Nat) (positive : 0 < quorum) (possible : quorum ≤ clients) :
    ∃ attempt : Attempt Id, start clients quorum fallbackLockId validUntil = ⟨attempt, none, []⟩ ∧
      attempt.Open behaviours ∧ attempt.clients = clients ∧ attempt.quorum = quorum := by
  let empty : Attempt Id :=
    ⟨clients, quorum, fallbackLockId, validUntil, [], 0, [], [], none, none, none, 0⟩
  have window : empty.Window behaviours :=
    ⟨Nat.zero_le _, rfl, rfl, Nat.le_refl _, Nat.zero_le _⟩
  have room : empty.individualLocks.length + min (quorum + lockAcquireSpareHedges) clients ≤
      empty.quorum + 1 := by
    change 0 + min (quorum + 1) clients ≤ quorum + 1
    omega
  obtain ⟨spawned, full, same⟩ := Attempt.spawn_window window room
  have request := Attempt.spawn_request (min (quorum + lockAcquireSpareHedges) clients)
    (min (quorum + lockAcquireSpareHedges) clients) empty
  have held := Attempt.spawn_held (min (quorum + lockAcquireSpareHedges) clients)
    (min (quorum + lockAcquireSpareHedges) clients) empty
  change (empty.spawnLockRequestsUntil _).individualLocks = [] at held
  change min (quorum + 1) clients ≤ _ ∨ _ = clients at full
  change _ + (clients - _) = 0 + (clients - 0) at same
  have isClients : (empty.spawnLockRequestsUntil
    (min (quorum + lockAcquireSpareHedges) clients)).clients = clients := request.clients
  have isQuorum : (empty.spawnLockRequestsUntil
    (min (quorum + lockAcquireSpareHedges) clients)).quorum = quorum := request.quorum
  change ∃ attempt, (empty.spawnLockRequestsUntil _).waiting = _ ∧ _
  generalize empty.spawnLockRequestsUntil (min (quorum + lockAcquireSpareHedges) clients) = attempt at *
  have bounded := spawned.bounded
  have nonempty : attempt.pending ≠ [] := by
    intro noRequest
    rw [noRequest] at full same
    simp only [length_nil] at full same
    omega
  refine ⟨attempt, ?_, ⟨spawned, ?_, ?_⟩, isClients, isQuorum⟩
  · unfold Attempt.waiting
    rw [if_neg (by simpa using nonempty)]
  · rw [held, isQuorum]
    exact positive
  · rw [held, isQuorum, isClients]
    simp only [length_nil]
    omega

theorem after_reply_none (isNone : attempt.quorum = 0) :
    attempt.afterReply = attempt.successExit := by
  unfold Attempt.afterReply
  rw [isNone, if_neg (Nat.not_lt_zero _), if_pos (Nat.zero_le _)]

theorem start_none_iff (behaviours : Behaviours Id) (clients : Nat) (fallbackLockId : Id)
    (validUntil : Nat) :
    EndsInSuccess behaviours (start clients 0 fallbackLockId validUntil) ↔
      0 < clients ∧ behaviours.silent 0 = false := by
  cases clients with
  | zero =>
    constructor
    · intro ends
      cases ends with
      | returned result isResult success =>
        cases isResult
        cases success
      | running isRunning => cases isRunning
    · intro impossible
      exact absurd impossible.1 (Nat.lt_irrefl 0)
  | succ clients =>
    constructor
    · intro ends
      refine ⟨Nat.succ_pos _, ?_⟩
      cases answer : behaviours 0 with
      | some reply => simp [Behaviours.silent, answer]
      | none =>
        cases ends with
        | returned result isResult success => cases isResult
        | running isRunning goesOn everyOrder =>
          have fair : ∀ client ∈ [0], behaviours client = none := by simpa using answer
          cases everyOrder .deadline _ fair rfl with
          | returned result isResult success =>
            cases isResult
            cases success
          | running isRunning => cases isRunning
    · rintro ⟨_, answers⟩
      obtain ⟨reply, answered⟩ : ∃ reply, behaviours 0 = some reply := by
        simpa [Behaviours.silent, Option.isSome_iff_exists] using answers
      refine .running rfl ⟨.reply 0 reply, _, answered, rfl⟩ ?_
      intro event next fair stepped
      rcases step_cases stepped with ⟨rfl, _, _⟩ | ⟨asked, answer, rfl, pending, _, rfl⟩ |
          ⟨_, _, result, _, _, returned, _⟩
      · have noAnswer := fair 0 mem_cons_self
        rw [answered] at noAnswer
        cases noAnswer
      · rw [after_reply_none (Attempt.record_request answer).quorum]
        exact .returned _ rfl rfl
      · cases returned

/-- Given enough clients that grant, the attempt ends in success in every order of answers exactly
if at most one client of its window is silent. Later clients do not help: a silent client is never
replaced. -/
theorem ends_in_success_iff (behaviours : Behaviours Id) (clients quorum : Nat) (fallbackLockId : Id)
    (validUntil : Nat) (possible : quorum ≤ clients)
    (enough : quorum ≤ behaviours.granting clients) :
    EndsInSuccess behaviours (start clients quorum fallbackLockId validUntil) ↔
      behaviours.Answers clients quorum := by
  unfold Behaviours.Answers
  rcases Nat.eq_zero_or_pos quorum with rfl | positive
  · rw [start_none_iff]
    simp
  · obtain ⟨attempt, starts, isOpen, isClients, isQuorum⟩ :=
      start_open behaviours fallbackLockId validUntil positive possible
    rw [starts]
    constructor
    · intro ends
      refine .inl ⟨positive, ?_⟩
      by_contra blocked
      exact hopeless_never_succeeds blocked ends (.inr ⟨rfl, isOpen.window, isClients, isQuorum⟩)
    · rintro (⟨_, answers⟩ | ⟨isNone, _⟩)
      · exact open_ends_in_success enough answers _ attempt isClients isQuorum isOpen rfl []
      · exact absurd isNone (Nat.ne_of_gt positive)

/-- Three of four clients grant, the second never answers. -/
theorem one_silent_client_is_hedged :
    EndsInSuccess (fun client => if client = 1 then none else some (.grant none))
      (start 4 3 (0 : Nat) 5) :=
  (ends_in_success_iff (fun client => if client = 1 then none else some (.grant none)) 4 3 (0 : Nat) 5
    (by decide) (by decide)).2 (.inl (by decide))

/-- Two of four clients grant, but the two in front of them never answer: the attempt for
two grants asks three clients, and the fourth is never asked. -/
theorem two_silent_clients_block :
    let behaviours : Behaviours Nat := fun client => if client < 2 then none else some (.grant none)
    2 ≤ 4 ∧ 2 ≤ behaviours.granting 4 ∧ ¬EndsInSuccess behaviours (start 4 2 0 5) := by
  intro behaviours
  refine ⟨by decide, by decide, ?_⟩
  intro ends
  cases ends with
  | returned result isResult success => cases isResult
  | running isRunning goesOn everyOrder =>
    cases everyOrder (.reply 2 (.grant none)) _ rfl rfl with
    | returned result isResult success => cases isResult
    | running isRunning goesOn everyOrder =>
      have silent : ∀ client ∈ [0, 1], behaviours client = none := by
        intro client member
        have small : client < 2 := by
          simp only [mem_cons, not_mem_nil, or_false] at member
          omega
        exact if_pos small
      cases everyOrder .deadline _ silent rfl with
      | returned result isResult success =>
        cases isResult
        cases success
      | running isRunning => cases isRunning

end Run

end Rustfs.Lock
