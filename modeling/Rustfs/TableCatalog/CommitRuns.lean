import Rustfs.TableCatalog.Commit
import Mathlib.Data.List.Induction
import Mathlib.Logic.Function.Basic
import Mathlib.Data.List.Infix

/-!
# The history a table was committed through

Commits that follow each other from one state of a table to the next, the newest first.
Over such a history the index walks back through every state the table had. Commits of
other tables stand in the same log and are passed over.
-/

namespace Rustfs.TableCatalog

open List Library StrongTableCatalogState KeyMap

variable {table first : TableEntry} {place : StrongCommitKey}

section Histories

variable {Json : Type}

def headState (start : PointerState) : List (CommitLogEntry Json) → PointerState
  | [] => start
  | log :: _ => log.newState

def Linked (start : PointerState) : List (CommitLogEntry Json) → Prop
  | [] => True
  | log :: older => log.previousState = headState start older ∧ Linked start older

def reachedStates (start : PointerState) (history : List (CommitLogEntry Json)) : List PointerState :=
  history.map CommitLogEntry.newState ++ [start]

/-- A history whose states are told apart by their tokens. -/
structure History (start : PointerState) (history : List (CommitLogEntry Json)) : Prop where
  linked : Linked start history
  distinct : ((reachedStates start history).map fun state => (ofLex state).2).Nodup

namespace History

variable {start : PointerState} {history older : List (CommitLogEntry Json)}
  {log : CommitLogEntry Json}

theorem states_nodup (isHistory : History start history) : (reachedStates start history).Nodup :=
  isHistory.distinct.of_map

theorem head_mem (start : PointerState) (history : List (CommitLogEntry Json)) :
    headState start history ∈ reachedStates start history := by
  cases history with
  | nil | cons log older => exact mem_cons_self

theorem previous_mem {newest : CommitLogEntry Json} (linked : Linked start (newest :: older))
    (member : log ∈ newest :: older) : log.previousState ∈ reachedStates start older := by
  induction older generalizing newest with
  | nil =>
    rw [mem_singleton.1 member, linked.1]
    exact head_mem start []
  | cons next rest ih =>
    rcases mem_cons.1 member with rfl | inOlder
    · rw [linked.1]
      exact head_mem start (next :: rest)
    · exact mem_cons_of_mem _ (ih linked.2 inOlder)

theorem previous_ne_head (isHistory : History start history) (member : log ∈ history) :
    log.previousState ≠ headState start history := by
  cases history with
  | nil => cases member
  | cons newest older =>
    intro same
    apply (nodup_cons.1 isHistory.states_nodup).1
    have earlier := previous_mem isHistory.linked member
    rw [same] at earlier
    exact earlier

theorem new_states_nodup (isHistory : History start history) :
    (history.map CommitLogEntry.newState).Nodup :=
  isHistory.states_nodup.of_append_left

theorem start_not_new (isHistory : History start history) :
    start ∉ history.map CommitLogEntry.newState := by
  intro member
  have apart := nodup_append.1 isHistory.states_nodup
  exact apart.2.2 start member start mem_cons_self rfl

end History

namespace TableCommitHistoryIndex

variable {start : PointerState} {history logs : List (CommitLogEntry Json)}
  {byNewState : ByNewState} {state : PointerState} {j k : Nat}

/-- The commits of a table that count for its history. -/
def ownCommits (table : TableEntry) (commits : List (CommitLogEntry Json)) :=
  commits.filter fun commit =>
    commit.tableId = table.tableId && commit.status ≠ CommitLogStatus.failed

def leadingTo (logs : List (CommitLogEntry Json)) (state : PointerState) :=
  logs.filter fun log => log.newState = state

/-- The state before a state, if a single commit leads to it. -/
def earlierState (logs : List (CommitLogEntry Json)) (state : PointerState) : Option PointerState :=
  match leadingTo logs state with
  | [log] => some log.previousState
  | _ => none

/-- The state so many commits back from a state. -/
def stateBack (logs : List (CommitLogEntry Json)) (start : PointerState) : Nat → Option PointerState
  | 0 => some start
  | n + 1 => (stateBack logs start n).bind (earlierState logs)

theorem record_all (state : PointerState) :
    (logs.foldl record (empty, [])).1.get state =
        (match leadingTo logs state with
        | [] => none
        | [log] => some (some log.previousState)
        | _ => some none) ∧
      (state ∈ (logs.foldl record (empty, [])).2 ↔ 2 ≤ (leadingTo logs state).length) := by
  induction logs using List.reverseRecOn with
  | nil => exact ⟨rfl, by simp [leadingTo]⟩
  | append_singleton logs log ih =>
    obtain ⟨recorded, ambiguous⟩ := ih
    have leading : leadingTo (logs ++ [log]) state =
        leadingTo logs state ++ if log.newState = state then [log] else [] := by
      simp [leadingTo, filter_append, filter_cons]
    rw [leading, foldl_append, foldl_cons, foldl_nil]
    by_cases same : log.newState = state
    · subst same
      rw [if_pos rfl]
      generalize logs.foldl record (empty, []) = index at recorded ambiguous ⊢
      unfold record
      rw [recorded]
      match found : leadingTo logs log.newState with
      | [] =>
        rw [found] at ambiguous
        exact ⟨by simp [get_insert], by simpa using ambiguous⟩
      | [first] => exact ⟨by simp [get_insert], by simp⟩
      | first :: second :: more => exact ⟨by simp [get_insert], by simp⟩
    · have different : ¬state = log.newState := fun equal => same equal.symm
      rw [if_neg same, append_nil, ← recorded, ← ambiguous]
      generalize logs.foldl record (empty, []) = index
      unfold record
      split
      · simp [get_insert, different]
      · simp [get_insert, different]

theorem state_back_earlier (reached : (stateBack logs start k).isSome = true) (within : j ≤ k) :
    (stateBack logs start j).isSome = true := by
  induction within with
  | refl => exact reached
  | @step k _ ih =>
    apply ih
    rw [stateBack] at reached
    cases isLater : stateBack logs start k with
    | none =>
      rw [isLater] at reached
      cases reached
    | some later => rfl

theorem state_back_returns (earlier : j < k) (same : stateBack logs start j = stateBack logs start k)
    (n : Nat) : ∃ m < k, stateBack logs start n = stateBack logs start m := by
  induction n with
  | zero => exact ⟨0, by omega, rfl⟩
  | succ n ih =>
    obtain ⟨m, below, isLater⟩ := ih
    have next : stateBack logs start (n + 1) = stateBack logs start (m + 1) := by
      rw [stateBack, isLater, stateBack]
    by_cases inside : m + 1 < k
    · exact ⟨m + 1, inside, next⟩
    · obtain rfl : k = m + 1 := by omega
      exact ⟨j, earlier, next.trans same.symm⟩

theorem walk_ends (byNewState : ByNewState) (fuel : Nat) (state : PointerState)
    (reachable : List PointerState) (once : reachable.Nodup)
    (recorded : reachable ⊆ byNewState.entries.map Prod.fst)
    (enough : byNewState.entries.length < reachable.length + fuel) :
    (walk byNewState fuel state reachable).isSome = true := by
  induction fuel generalizing state reachable with
  | zero =>
    have short := (subperm_of_subset once recorded).length_le
    rw [length_map] at short
    omega
  | succ fuel ih =>
    unfold walk
    split
    · rfl
    · rename_i notReached
      split
      · rename_i previous found
        apply ih
        · exact nodup_cons.2 ⟨notReached, once⟩
        · exact cons_subset.2 ⟨mem_map_of_mem (get_eq_some.1 found), recorded⟩
        · rw [length_cons]
          omega
      · rfl

theorem walk_visits {fuel : Nat} {reachable : List PointerState}
    {walked : List PointerState × Bool}
    (agrees : ∀ other, (byNewState.get other).join = earlierState logs other)
    (here : stateBack logs start k = some state)
    (visited : ∀ other, other ∈ reachable ↔ ∃ n < k, stateBack logs start n = some other)
    (isWalk : walk byNewState fuel state reachable = some walked) :
    (∀ other, other ∈ walked.1 ↔ ∃ n, stateBack logs start n = some other) ∧
      (walked.2 = false ↔ ∃ n, stateBack logs start n = none) := by
  induction fuel generalizing k state reachable with
  | zero => cases isWalk
  | succ fuel ih =>
    have more : ∀ other, other ∈ state :: reachable ↔
        ∃ n < k + 1, stateBack logs start n = some other := by
      intro other
      rw [mem_cons, visited]
      constructor
      · rintro (rfl | ⟨n, below, isOther⟩)
        · exact ⟨k, Nat.lt_succ_self k, here⟩
        · exact ⟨n, Nat.lt_succ_of_lt below, isOther⟩
      · rintro ⟨n, below, isOther⟩
        rcases Nat.lt_succ_iff_lt_or_eq.1 below with before | rfl
        · exact .inr ⟨n, before, isOther⟩
        · exact .inl (Option.some_inj.1 (isOther.symm.trans here))
    have next : stateBack logs start (k + 1) = (byNewState.get state).join := by
      rw [stateBack, here, Option.bind_some, agrees]
    unfold walk at isWalk
    split at isWalk
    · rename_i again
      cases isWalk
      obtain ⟨j, earlier, isState⟩ := (visited state).1 again
      have returns := state_back_returns earlier (isState.trans here.symm)
      refine ⟨fun other => ?_, iff_of_false Bool.true_eq_false.mp ?_⟩
      · rw [visited]
        constructor
        · rintro ⟨n, _, isOther⟩
          exact ⟨n, isOther⟩
        · rintro ⟨n, isOther⟩
          obtain ⟨m, below, same⟩ := returns n
          exact ⟨m, below, same.symm.trans isOther⟩
      · rintro ⟨n, ended⟩
        obtain ⟨m, below, same⟩ := returns n
        have reached := state_back_earlier (by rw [here]; rfl) below.le
        rw [← same, ended] at reached
        cases reached
    · split at isWalk
      · rename_i previous found
        refine ih (k := k + 1) ?_ more isWalk
        rw [next, found, Option.join_some]
      · rename_i ends
        cases isWalk
        have after : stateBack logs start (k + 1) = none := by
          rw [next]
          match found : byNewState.get state with
          | none => rfl
          | some none => rfl
          | some (some previous) => exact absurd found (ends previous)
        refine ⟨fun other => ?_, iff_of_true rfl ⟨k + 1, after⟩⟩
        rw [more]
        constructor
        · rintro ⟨n, _, isOther⟩
          exact ⟨n, isOther⟩
        · rintro ⟨n, isOther⟩
          refine ⟨n, ?_, isOther⟩
          by_contra beyond
          have reached : (stateBack logs start (k + 1)).isSome = true :=
            state_back_earlier (by rw [isOther]; rfl) (Nat.le_of_not_lt beyond)
          rw [after] at reached
          cases reached

theorem index_exact (table : TableEntry) (commits : List (CommitLogEntry Json)) :
    (∀ state, state ∈ (new table commits).reachableStates ↔
        ∃ n, stateBack (ownCommits table commits) table.pointer n = some state) ∧
      ((new table commits).cycleDetected = false ↔
        ∃ n, stateBack (ownCommits table commits) table.pointer n = none) ∧
      ∀ state, state ∉ (new table commits).ambiguousStates ↔
        (leadingTo (ownCommits table commits) state).length < 2 := by
  have recorded := @record_all _ (ownCommits table commits)
  let index := (ownCommits table commits).foldl record (empty, [])
  have agrees : ∀ other, (index.1.get other).join = earlierState (ownCommits table commits) other := by
    intro other
    rw [(recorded other).1]
    unfold earlierState
    split <;> simp_all
  obtain ⟨walked, isWalk⟩ := Option.isSome_iff_exists.1 (walk_ends index.1
    (index.1.entries.length + 2) table.pointer [] nodup_nil (nil_subset _) (by rw [length_nil]; omega))
  have reached : (new table commits).reachableStates = walked.1 :=
    congrArg (fun found => (found.getD ([], true)).1) isWalk
  have cycles : (new table commits).cycleDetected = walked.2 :=
    congrArg (fun found => (found.getD ([], true)).2) isWalk
  obtain ⟨visited, ended⟩ := @walk_visits _ table.pointer _ _ table.pointer 0 _ [] walked agrees rfl
    (by simp) isWalk
  rw [reached, cycles]
  exact ⟨visited, ended, fun state => (not_congr (recorded state).2).trans Nat.not_le⟩

/-- A commit is proved by the history of its table exactly when the way back from the table's
pointer ends, comes through the state the commit leads to, and no two commits lead there. -/
theorem proves_committed_iff (table : TableEntry) (commits : List (CommitLogEntry Json))
    (target : CommitLogEntry Json) :
    (new table commits).provesCommitted target = true ↔
      (∃ n, stateBack (ownCommits table commits) table.pointer n = none) ∧
        table.tableId = target.tableId ∧ target.status ≠ CommitLogStatus.failed ∧
        (leadingTo (ownCommits table commits) target.newState).length < 2 ∧
        ∃ n, stateBack (ownCommits table commits) table.pointer n = some target.newState := by
  obtain ⟨reached, cycles, ambiguous⟩ := index_exact table commits
  unfold provesCommitted
  simp only [Bool.and_eq_true, Bool.not_eq_true', decide_eq_true_eq, cycles, reached, ambiguous,
    and_assoc]
  rfl

theorem history_back (linked : Linked start history)
    (links : ∀ log ∈ history, earlierState logs log.newState = some log.previousState)
    (ends : earlierState logs start = none) (n : Nat) :
    stateBack logs (headState start history) n = (reachedStates start history)[n]? := by
  have next : ∀ n, (reachedStates start history)[n]?.bind (earlierState logs) =
      (reachedStates start history)[n + 1]? := by
    induction history with
    | nil =>
      intro n
      cases n with
      | zero => exact ends
      | succ n => rfl
    | cons log older ih =>
      intro n
      cases n with
      | zero =>
        have before : earlierState logs log.newState = some (headState start older) := by
          rw [links log mem_cons_self, linked.1]
        refine before.trans ?_
        cases older <;> rfl
      | succ n => exact ih linked.2 (fun other member => links other (mem_cons_of_mem _ member)) n
  induction n with
  | zero => cases history <;> rfl
  | succ n ih => rw [stateBack, ih, next]

theorem new_over_history {commits : List (CommitLogEntry Json)}
    (isHistory : History start history) (current : table.pointer = headState start history)
    (own : ∀ log ∈ history, log.tableId = table.tableId ∧ log.status = .committed)
    (once : commits.Nodup) (recorded : ∀ log, log ∈ commits ↔ log ∈ history)
    (target : CommitLogEntry Json) :
    (new table commits).provesCommitted target = true ↔
      target.tableId = table.tableId ∧ target.status ≠ .failed ∧
        target.newState ∈ reachedStates start history := by
  have kept : ownCommits table commits = commits := by
    rw [ownCommits, filter_eq_self]
    intro log member
    obtain ⟨sameTable, committed⟩ := own log ((recorded log).1 member)
    simp [sameTable, committed]
  have distinct : (commits.map CommitLogEntry.newState).Nodup := by
    apply List.Nodup.map_on _ once
    intro log member other otherMember same
    exact inj_on_of_nodup_map isHistory.new_states_nodup ((recorded log).1 member)
      ((recorded other).1 otherMember) same
  have single : ∀ state, (leadingTo commits state).length < 2 := by
    intro state
    have least := nodup_iff_count_le_one.1 distinct state
    rw [count_eq_countP, countP_map, countP_eq_length_filter] at least
    refine Nat.lt_succ_of_le (le_of_eq_of_le (congrArg _ (filter_congr fun log _ => ?_)) least)
    exact (beq_eq_decide _ _).symm
  have links : ∀ log ∈ history, earlierState commits log.newState = some log.previousState := by
    intro log member
    have leads : log ∈ leadingTo commits log.newState :=
      mem_filter.2 ⟨(recorded log).2 member, decide_eq_true rfl⟩
    have alone := single log.newState
    unfold earlierState
    match found : leadingTo commits log.newState with
    | [] => simp [found] at leads
    | [other] => simp_all
    | other :: another :: more =>
      rw [found, length_cons, length_cons] at alone
      omega
  have ends : earlierState commits start = none := by
    have nothing : leadingTo commits start = [] := by
      rw [leadingTo, filter_eq_nil_iff]
      intro log member same
      exact isHistory.start_not_new
        (of_decide_eq_true same ▸ mem_map_of_mem ((recorded log).1 member))
    rw [earlierState, nothing]
  have back := history_back isHistory.linked links ends
  obtain ⟨reached, cycles, ambiguous⟩ := index_exact table commits
  rw [kept, current] at reached cycles
  rw [kept] at ambiguous
  have ended : (new table commits).cycleDetected = false :=
    cycles.2 ⟨(reachedStates start history).length, by rw [back, getElem?_length]⟩
  have onWay : target.newState ∈ (new table commits).reachableStates ↔
      target.newState ∈ reachedStates start history := by
    rw [reached, mem_iff_getElem?]
    simp only [back]
  have unambiguous := (ambiguous target.newState).2 (single target.newState)
  unfold provesCommitted
  simp only [ended, onWay, unambiguous, Bool.not_false, Bool.true_and, Bool.and_eq_true,
    decide_eq_true_eq, not_false_eq_true, decide_true, Bool.and_true, and_assoc]
  rw [eq_comm]
  rfl

end TableCommitHistoryIndex

end Histories

variable {Json : Type} [DecidableEq Json]

/-- A call of `apply_commit_locked` with the token it would generate. -/
structure Call (Json : Type) where
  request : TableCommitRequest Json
  namespaceName : String
  table : String
  nextMetadataState : TableMetadataCommitState
  newVersionToken : String

namespace Call

def key (call : Call Json) : StrongResourceKey :=
  tableKey call.request.tableBucket call.namespaceName call.table

def apply (call : Call Json) (state : StrongTableCatalogState Json) :
    StrongTableCatalogState Json × Except TableCatalogStoreError (TableCommitResult Json) :=
  state.applyCommitLocked call.request call.namespaceName call.table call.nextMetadataState
    call.newVersionToken

def recordKey (call : Call Json) (table : TableEntry) : StrongCommitKey :=
  commitKey call.request.tableBucket table.tableId call.request.commitId

def log (call : Call Json) (table : TableEntry) : CommitLogEntry Json :=
  StrongTableCatalogState.newCommitLog call.request table call.newVersionToken

/-- The table after the call if it takes effect. -/
def next (call : Call Json) (table : TableEntry) : TableEntry :=
  { StrongTableCatalogState.movedTable table (call.log table) call.nextMetadataState with
    versionToken := call.newVersionToken
    generation := min (table.generation + 1) StrongTableCatalogState.maxGeneration }

/-- The table id and the commit id of the call. -/
def target (call : Call Json) (state : StrongTableCatalogState Json) : Option (String × String) :=
  (state.tables.get call.key).map fun table => (table.tableId, call.request.commitId)

end Call

namespace StrongTableCatalogState

def run (state : StrongTableCatalogState Json) (calls : List (Call Json)) :
    StrongTableCatalogState Json :=
  calls.foldl (fun state call => (call.apply state).1) state

theorem run_append (state : StrongTableCatalogState Json) (before after : List (Call Json)) :
    state.run (before ++ after) = (state.run before).run after :=
  foldl_append

/-- Every recorded commit is committed and in the idempotency index. -/
structure Settled (state : StrongTableCatalogState Json) : Prop where
  committed : ∀ key log, state.commits.get key = some log → log.status = .committed
  indexed : ∀ tableBucket tableId commitId log,
    state.commits.get (commitKey tableBucket tableId commitId) = some log →
      ∀ key, log.idempotencyKey = some key →
        state.idempotency.get (idempotencyKey tableBucket tableId key) = some log

variable {state : StrongTableCatalogState Json} {call : Call Json} {current : TableEntry}

omit [DecidableEq Json] in
theorem record_committed_present {tableBucket tableId : String} {log : CommitLogEntry Json}
    (settled : state.Settled)
    (found : state.commits.get (commitKey tableBucket tableId log.commitId) = some log) :
    state.recordCommitted tableBucket tableId log = state := by
  have commits := insert_present found
  cases key : log.idempotencyKey with
  | none =>
    unfold recordCommitted
    rw [commits, key]
  | some name =>
    have index := insert_present (settled.indexed _ _ _ _ found name key)
    unfold recordCommitted
    rw [commits, key]
    dsimp only
    rw [index]

theorem matches_request {log : CommitLogEntry Json} {request : TableCommitRequest Json}
    {tableId : String} (matched : commitLogMatchesRequest log request tableId = true) :
    log.commitId = request.commitId ∧ log.idempotencyKey = request.idempotencyKey := by
  unfold commitLogMatchesRequest at matched
  simp only [Bool.and_eq_true, decide_eq_true_eq] at matched
  obtain ⟨⟨⟨⟨⟨⟨⟨⟨⟨_, commitId⟩, key⟩, _⟩, _⟩, _⟩, _⟩, _⟩, _⟩, _⟩ := matched
  exact ⟨commitId, key⟩

structure Open (state : StrongTableCatalogState Json) (call : Call Json) (table : TableEntry) : Prop where
  unambiguous : call.key ∉ state.identifierCollisions
  found : state.tables.get call.key = some table
  active : table.state = .active

theorem validate_cases
    (validated : state.validateNewTableCommitLocked call.key call.request = .ok current) :
    state.Open call current ∧
      ((∃ existing, state.commits.get (call.recordKey current) = some existing ∧
          state.validateExistingCommit call.request current existing = .ok current) ∨
        (state.commits.get (call.recordKey current) = none ∧
          state.existingIdempotencyCommit call.request current = none ∧
          validateTableBase call.request current = .ok current)) := by
  unfold validateNewTableCommitLocked at validated
  split at validated
  · cases validated
  · rename_i unambiguous
    split at validated
    · cases validated
    · rename_i table found
      split at validated
      · cases validated
      · rename_i active
        rw [not_not] at active
        dsimp only at validated
        split at validated
        · cases validated
        · rename_i noConflict
          split at validated
          · rename_i existing recorded
            have isTable : current = table := by
              unfold validateExistingCommit at validated
              repeat' split at validated
              all_goals cases validated
              rfl
            subst isTable
            exact ⟨⟨unambiguous, found, active⟩, .inl ⟨existing, recorded, validated⟩⟩
          · rename_i missing
            have isTable : current = table := by
              unfold validateTableBase at validated
              repeat' split at validated
              all_goals cases validated
              rfl
            subst isTable
            refine ⟨⟨unambiguous, found, active⟩, .inr ⟨missing, ?_, validated⟩⟩
            rw [missing] at noConflict
            cases indexed : state.existingIdempotencyCommit call.request current with
            | none => rfl
            | some log =>
              rw [indexed] at noConflict
              unfold validateRecords at noConflict
              dsimp only at noConflict
              split at noConflict
              all_goals cases noConflict

theorem answered_from_record {existing : CommitLogEntry Json}
    (settled : state.Settled) (recorded : state.commits.get (call.recordKey current) = some existing)
    (accepted : state.validateExistingCommit call.request current existing = .ok current) :
    commitLogMatchesRequest existing call.request current.tableId = true ∧
      state.committedExistingResultLocked call.request current = some (state, ⟨current, existing⟩) := by
  have committed := settled.committed _ _ recorded
  unfold validateExistingCommit at accepted
  split at accepted
  · cases accepted
  · rename_i matched
    rw [Bool.not_eq_true', Bool.not_eq_false] at matched
    split at accepted
    · cases accepted
    · split at accepted
      · cases accepted
      · rename_i notBase
        refine ⟨matched, ?_⟩
        have sameRecord : { existing with status := CommitLogStatus.committed } = existing := by
          cases existing
          cases committed
          rfl
        unfold committedExistingResultLocked
        have place : state.commits.get (commitKey call.request.tableBucket current.tableId
            call.request.commitId) = some existing := recorded
        rw [place]
        dsimp only
        rw [if_neg (by simp [matched]), if_neg, sameRecord]
        · have again : state.recordCommitted call.request.tableBucket current.tableId existing = state := by
            apply record_committed_present settled
            rw [(matches_request matched).1]
            exact recorded
          rw [again]
        · simp [committed] at notBase ⊢
          exact notBase

omit [DecidableEq Json] in
theorem validate_table_base {request : TableCommitRequest Json}
    (accepted : validateTableBase request current = .ok table) :
    current.versionToken = request.expectedVersionToken ∧
      current.metadataLocation = request.expectedMetadataLocation := by
  unfold validateTableBase at accepted
  split at accepted
  · cases accepted
  · rename_i token
    split at accepted
    · cases accepted
    · rename_i location
      exact ⟨not_not.1 token, not_not.1 location⟩

/-- What a call does: it fails and changes nothing, it is answered from the record of its
commit, or it moves the table it was given the current state of. -/
theorem apply_cases (settled : state.Settled) (call : Call Json) :
    (∃ error, call.apply state = (state, .error error)) ∨
    (∃ table log, state.Open call table ∧ state.commits.get (call.recordKey table) = some log ∧
      commitLogMatchesRequest log call.request table.tableId = true ∧
      call.apply state = (state, .ok ⟨table, log⟩)) ∨
    (∃ table, state.Open call table ∧ state.commits.get (call.recordKey table) = none ∧
      state.existingIdempotencyCommit call.request table = none ∧
      table.versionToken = call.request.expectedVersionToken ∧
      table.metadataLocation = call.request.expectedMetadataLocation ∧
      call.apply state =
        ({ state.recordCommitted call.request.tableBucket table.tableId (call.log table) with
            tables := state.tables.insert call.key (call.next table) },
          .ok ⟨call.next table, call.log table⟩)) := by
  unfold Call.apply applyCommitLocked
  dsimp only
  cases validated : state.validateNewTableCommitLocked
      (tableKey call.request.tableBucket call.namespaceName call.table) call.request with
  | error error => exact .inl ⟨error, rfl⟩
  | ok current =>
    dsimp only
    obtain ⟨opened, ⟨existing, recorded, accepted⟩ | ⟨missing, noIndex, base⟩⟩ :=
      validate_cases validated
    · obtain ⟨matched, answered⟩ := answered_from_record settled recorded accepted
      refine .inr (.inl ⟨current, existing, opened, recorded, matched, ?_⟩)
      rw [answered]
    · have notRecorded : state.committedExistingResultLocked call.request current = none := by
        have place : state.commits.get (commitKey call.request.tableBucket current.tableId
          call.request.commitId) = none := missing
        unfold committedExistingResultLocked
        rw [place]
      obtain ⟨token, location⟩ := validate_table_base base
      rw [notRecorded]
      dsimp only
      cases state.ensureTableWarehouseAvailableLocked
          (movedTable current (newCommitLog call.request current call.newVersionToken)
            call.nextMetadataState)
          (tableKey call.request.tableBucket call.namespaceName call.table) with
      | error error => exact .inl ⟨error, rfl⟩
      | ok _ => exact .inr (.inr ⟨current, opened, missing, noIndex, token, location, rfl⟩)

theorem apply_keeps_commit (settled : state.Settled)
    {log : CommitLogEntry Json} (recorded : state.commits.get place = some log) :
    (call.apply state).1.commits.get place = some log := by
  rcases apply_cases settled call with ⟨error, failed⟩ | ⟨table, old, _, _, _, answered⟩ |
      ⟨table, _, missing, _, _, _, moved⟩
  · rw [failed]
    exact recorded
  · rw [answered]
    exact recorded
  · have different : place ≠ call.recordKey table := by
      intro same
      rw [same, missing] at recorded
      cases recorded
    rw [moved]
    change (state.commits.insert (call.recordKey table) (call.log table)).get place = some log
    rw [get_insert, if_neg different]
    exact recorded

end StrongTableCatalogState

def keyBucket (key : StrongResourceKey) : String := (ofLex key).1

/-- The records of a store are the logs of the histories of its tables. -/
structure Recorded (initial state : StrongTableCatalogState Json)
    (history : StrongResourceKey → List (CommitLogEntry Json)) (tokens : List String) : Prop where
  collisions : state.identifierCollisions = initial.identifierCollisions
  present : ∀ key, (state.tables.get key).isSome = (initial.tables.get key).isSome
  table : ∀ key first table, initial.tables.get key = some first → state.tables.get key = some table →
    table.tableId = first.tableId ∧ table.state = first.state ∧
      table.pointer = headState first.pointer (history key)
  linked : ∀ key first, initial.tables.get key = some first → History first.pointer (history key)
  logs : ∀ key, ∀ log ∈ history key, ∃ first, initial.tables.get key = some first ∧
    log.tableId = first.tableId ∧ log.status = .committed ∧ log.newVersionToken ∈ tokens
  commits : ∀ place log, state.commits.get place = some log ↔
    ∃ key, log ∈ history key ∧ place = commitKey (keyBucket key) log.tableId log.commitId
  idempotency : ∀ key name, ∀ log ∈ history key, log.idempotencyKey = some name →
    state.idempotency.get (idempotencyKey (keyBucket key) log.tableId name) = some log

namespace Recorded

variable {initial state : StrongTableCatalogState Json} {call : Call Json}
  {history : StrongResourceKey → List (CommitLogEntry Json)} {tokens : List String}

omit [DecidableEq Json] in
theorem start (noCommits : initial.commits = KeyMap.empty) :
    Recorded initial initial (fun _ => []) [] where
  collisions := rfl
  present := fun _ => rfl
  table := fun key first table isFirst isTable => by
    rw [isFirst] at isTable
    cases isTable
    exact ⟨rfl, rfl, rfl⟩
  linked := fun key first _ => ⟨trivial, nodup_singleton _⟩
  logs := fun key log member => by cases member
  commits := fun place log => by
    rw [noCommits]
    simp [KeyMap.get, KeyMap.empty]
  idempotency := fun key name log member => by cases member

omit [DecidableEq Json] in
theorem settled (recorded : Recorded initial state history tokens) : state.Settled where
  committed := fun place log found => by
    obtain ⟨key, member, _⟩ := (recorded.commits place log).1 found
    obtain ⟨_, _, _, committed, _⟩ := recorded.logs key log member
    exact committed
  indexed := fun tableBucket tableId commitId log found name named => by
    obtain ⟨key, member, same⟩ := (recorded.commits _ log).1 found
    have bucket : tableBucket = keyBucket key := congrArg (fun place => (ofLex place).1) same
    have id : tableId = log.tableId := congrArg (fun place => (ofLex (ofLex place).2).1) same
    rw [bucket, id]
    exact recorded.idempotency key name log member named

omit [DecidableEq Json] in
theorem found_first (recorded : Recorded initial state history tokens) {key : StrongResourceKey}
    (found : state.tables.get key = some table) : ∃ first, initial.tables.get key = some first := by
  have present := recorded.present key
  rw [found] at present
  exact Option.isSome_iff_exists.1 present.symm

omit [DecidableEq Json] in
theorem not_staged_base (recorded : Recorded initial state history tokens) {key : StrongResourceKey}
    {log : CommitLogEntry Json} (found : state.tables.get key = some table)
    (member : log ∈ history key) : tableMatchesStagedBase table log = false := by
  obtain ⟨first, isFirst⟩ := recorded.found_first found
  have base := (recorded.linked key first isFirst).previous_ne_head member
  rw [← (recorded.table key first table isFirst found).2.2] at base
  unfold tableMatchesStagedBase
  simp [Ne.symm base]

omit [DecidableEq Json] in
theorem mem_newest (history : StrongResourceKey → List (CommitLogEntry Json)) (newest : CommitLogEntry Json)
    (target key : StrongResourceKey) (log : CommitLogEntry Json) :
    log ∈ Function.update history target (newest :: history target) key ↔
      (key = target ∧ log = newest) ∨ log ∈ history key := by
  by_cases same : key = target
  · subst same
    simp
  · simp [same]

omit [DecidableEq Json] in
theorem history_cons (recorded : Recorded initial state history tokens) {key : StrongResourceKey}
    {log : CommitLogEntry Json} (isFirst : initial.tables.get key = some first)
    (follows : log.previousState = headState first.pointer (history key))
    (unused : log.newVersionToken ∉ tokens) (unknown : log.newVersionToken ≠ first.versionToken) :
    History first.pointer (log :: history key) := by
  have older := recorded.linked key first isFirst
  refine ⟨⟨follows, older.linked⟩, nodup_cons.2 ⟨?_, older.distinct⟩⟩
  intro repeated
  obtain ⟨state, reached, same⟩ := mem_map.1 repeated
  rcases mem_append.1 reached with isNew | isStart
  · obtain ⟨earlier, isEarlier, rfl⟩ := mem_map.1 isNew
    obtain ⟨_, _, _, _, used⟩ := recorded.logs key earlier isEarlier
    have sameToken : earlier.newVersionToken = log.newVersionToken := same
    exact unused (sameToken ▸ used)
  · rw [mem_singleton.1 isStart] at same
    exact unknown same.symm

omit [DecidableEq Json] in
theorem index_newest (recorded : Recorded initial state history tokens) {key : StrongResourceKey}
    {newest : CommitLogEntry Json} (fresh : ∀ name, newest.idempotencyKey = some name →
      state.idempotency.get (idempotencyKey (keyBucket key) newest.tableId name) = none)
    (other : StrongResourceKey) (name : String) (log : CommitLogEntry Json)
    (member : log ∈ Function.update history key (newest :: history key) other)
    (named : log.idempotencyKey = some name) :
    (state.recordCommitted (keyBucket key) newest.tableId newest).idempotency.get
      (idempotencyKey (keyBucket other) log.tableId name) = some log := by
  unfold recordCommitted
  rcases (mem_newest _ _ _ _ _).1 member with ⟨rfl, rfl⟩ | older
  · rw [named]
    dsimp only
    rw [get_insert, if_pos rfl]
  · have found := recorded.idempotency other name log older named
    cases newName : newest.idempotencyKey with
    | none => exact found
    | some name => exact (get_insert_fresh (fresh name newName)).2 (.inr found)

omit [DecidableEq Json] in
theorem moved (recorded : Recorded initial state history tokens)
    (opened : state.Open call table) (missing : state.commits.get (call.recordKey table) = none)
    (noIndex : state.existingIdempotencyCommit call.request table = none)
    (token : table.versionToken = call.request.expectedVersionToken)
    (unused : call.newVersionToken ∉ tokens)
    (unknown : ∀ key first, initial.tables.get key = some first →
      call.newVersionToken ≠ first.versionToken) :
    Recorded initial
      { state.recordCommitted call.request.tableBucket table.tableId (call.log table) with
        tables := state.tables.insert call.key (call.next table) }
      (Function.update history call.key (call.log table :: history call.key))
      (call.newVersionToken :: tokens) := by
  obtain ⟨first, isFirst⟩ := recorded.found_first opened.found
  obtain ⟨sameId, sameState, pointer⟩ := recorded.table _ _ _ isFirst opened.found
  have follows : (call.log table).previousState = headState first.pointer (history call.key) := by
    rw [← pointer]
    unfold CommitLogEntry.previousState TableEntry.pointer
    rw [token]
    rfl
  have fresh : ∀ name, (call.log table).idempotencyKey = some name →
      state.idempotency.get (idempotencyKey (keyBucket call.key) (call.log table).tableId name) = none := by
    intro name named
    unfold existingIdempotencyCommit at noIndex
    rw [show call.request.idempotencyKey = some name from named] at noIndex
    exact noIndex
  refine ⟨recorded.collisions, ?_, ?_, ?_, ?_, ?_, recorded.index_newest fresh⟩
  · intro key
    dsimp only
    rw [get_insert]
    split
    · rename_i same
      rw [same, isFirst]
      rfl
    · exact recorded.present key
  · intro key other current isOther found
    dsimp only at found
    rw [get_insert] at found
    split at found
    · rename_i same
      subst same
      rw [isFirst] at isOther
      cases isOther
      cases found
      rw [Function.update_self]
      exact ⟨sameId, sameState, rfl⟩
    · rename_i different
      rw [Function.update_of_ne different]
      exact recorded.table key other current isOther found
  · intro key other isOther
    by_cases same : key = call.key
    · subst same
      rw [isFirst] at isOther
      cases isOther
      rw [Function.update_self]
      exact recorded.history_cons isFirst follows unused (unknown _ _ isFirst)
    · rw [Function.update_of_ne same]
      exact recorded.linked key other isOther
  · intro key log isLog
    rcases (mem_newest _ _ _ _ _).1 isLog with ⟨rfl, rfl⟩ | older
    · exact ⟨first, isFirst, sameId, rfl, mem_cons_self⟩
    · obtain ⟨start, isStart, id, committed, used⟩ := recorded.logs key log older
      exact ⟨start, isStart, id, committed, mem_cons_of_mem _ used⟩
  · intro place log
    change (state.commits.insert (call.recordKey table) (call.log table)).get place = some log ↔ _
    rw [get_insert_fresh missing, recorded.commits]
    constructor
    · rintro (⟨isPlace, rfl⟩ | ⟨key, older, isPlace⟩)
      · exact ⟨call.key, (mem_newest _ _ _ _ _).2 (.inl ⟨rfl, rfl⟩), isPlace⟩
      · exact ⟨key, (mem_newest _ _ _ _ _).2 (.inr older), isPlace⟩
    · rintro ⟨key, isLog, isPlace⟩
      rcases (mem_newest _ _ _ _ _).1 isLog with ⟨rfl, rfl⟩ | older
      · exact .inl ⟨isPlace, rfl⟩
      · exact .inr ⟨key, older, isPlace⟩

omit [DecidableEq Json] in
theorem more_tokens (recorded : Recorded initial state history tokens) {more : List String}
    (included : tokens ⊆ more) : Recorded initial state history more :=
  { recorded with
    logs := fun key log member => by
      obtain ⟨first, isFirst, id, committed, used⟩ := recorded.logs key log member
      exact ⟨first, isFirst, id, committed, included used⟩ }

theorem replayed (recorded : Recorded initial state history tokens)
    {log : CommitLogEntry Json} (opened : state.Open call table)
    (found : state.commits.get (call.recordKey table) = some log)
    (matched : commitLogMatchesRequest log call.request table.tableId = true)
    (distinct : ∀ key other first second, initial.tables.get key = some first →
      initial.tables.get other = some second → first.tableId = second.tableId → key = other) :
    call.apply state = (state, .ok ⟨table, log⟩) := by
  have settled := recorded.settled
  have committed := settled.committed _ _ found
  obtain ⟨key, member, _⟩ := (recorded.commits _ _).1 found
  obtain ⟨first, isFirst, id, _, _⟩ := recorded.logs key log member
  have sameKey : key = call.key := by
    obtain ⟨other, isOther⟩ := recorded.found_first opened.found
    have tableId : log.tableId = table.tableId := by
      unfold commitLogMatchesRequest at matched
      simp only [Bool.and_eq_true, decide_eq_true_eq] at matched
      exact matched.1.1.1.1.1.1.2
    apply distinct key call.key first other isFirst isOther
    rw [← id, tableId, (recorded.table _ _ _ isOther opened.found).1]
  subst sameKey
  have notBase := recorded.not_staged_base opened.found member
  have accepted : state.validateExistingCommit call.request table log = .ok table := by
    unfold validateExistingCommit
    simp [matched, committed, notBase]
  have noConflict : validateRecords call.request table (some log)
      (state.existingIdempotencyCommit call.request table) = none := by
    unfold existingIdempotencyCommit
    cases named : call.request.idempotencyKey with
    | none => rfl
    | some name =>
      have indexed := settled.indexed _ _ _ _ found name
        ((matches_request matched).2.trans named)
      rw [Option.bind_some, indexed]
      simp [validateRecords, commitLogsShareRecoveryPayload, matched]
  have validated : state.validateNewTableCommitLocked call.key call.request = .ok table := by
    have place : state.commits.get (commitKey call.request.tableBucket table.tableId
      call.request.commitId) = some log := found
    unfold validateNewTableCommitLocked
    rw [if_neg opened.unambiguous, opened.found]
    dsimp only
    rw [if_neg (not_not.2 opened.active), place, noConflict]
    exact accepted
  unfold Call.key at validated
  unfold Call.apply applyCommitLocked
  dsimp only
  rw [validated]
  dsimp only
  rw [(answered_from_record settled found accepted).2]

theorem apply (recorded : Recorded initial state history tokens) (call : Call Json)
    (unused : call.newVersionToken ∉ tokens)
    (unknown : ∀ key first, initial.tables.get key = some first →
      call.newVersionToken ≠ first.versionToken) :
    ∃ longer, Recorded initial (call.apply state).1 longer (call.newVersionToken :: tokens) ∧
      ∀ key, longer key = history key ∨
        ∃ log table, longer key = log :: history key ∧
          (call.apply state).1.tables.get key = some table ∧ table.pointer = log.newState := by
  rcases apply_cases recorded.settled call with ⟨error, failed⟩ |
      ⟨table, log, _, _, _, answered⟩ | ⟨table, opened, missing, noIndex, token, _, moves⟩
  · rw [failed]
    exact ⟨history, recorded.more_tokens (subset_cons_self _ _), fun key => .inl rfl⟩
  · rw [answered]
    exact ⟨history, recorded.more_tokens (subset_cons_self _ _), fun key => .inl rfl⟩
  · rw [moves]
    refine ⟨_, recorded.moved opened missing noIndex token unused unknown, ?_⟩
    intro key
    by_cases same : key = call.key
    · subst same
      rw [Function.update_self]
      refine .inr ⟨_, call.next table, rfl, ?_, rfl⟩
      rw [get_insert, if_pos rfl]
    · rw [Function.update_of_ne same]
      exact .inl rfl

end Recorded

section Runs

variable {initial : StrongTableCatalogState Json}

structure FreshTokens (initial : StrongTableCatalogState Json) (calls : List (Call Json)) : Prop where
  distinct : (calls.map Call.newVersionToken).Nodup
  unknown : ∀ call ∈ calls, ∀ key first, initial.tables.get key = some first →
    call.newVersionToken ≠ first.versionToken

omit [DecidableEq Json] in
theorem FreshTokens.left {before after : List (Call Json)} (fresh : FreshTokens initial (before ++ after)) :
    FreshTokens initial before where
  distinct := by
    have distinct := fresh.distinct
    rw [map_append] at distinct
    exact distinct.of_append_left
  unknown := fun call member => fresh.unknown call (mem_append_left _ member)

/-- The store after the calls: its records are histories, and every state of a history was
the state of the table after some of the calls. -/
theorem run_recorded (noCommits : initial.commits = KeyMap.empty) (calls : List (Call Json))
    (fresh : FreshTokens initial calls) :
    ∃ history, Recorded initial (initial.run calls) history (calls.map Call.newVersionToken) ∧
      ∀ key first, initial.tables.get key = some first →
        ∀ state ∈ reachedStates first.pointer (history key),
          ∃ before, before <+: calls ∧
            ∃ table, (initial.run before).tables.get key = some table ∧ table.pointer = state := by
  induction calls using List.reverseRecOn with
  | nil =>
    refine ⟨fun _ => [], Recorded.start noCommits, ?_⟩
    intro key first isFirst state reached
    refine ⟨[], prefix_rfl, first, isFirst, ?_⟩
    exact (mem_singleton.1 reached).symm
  | append_singleton calls call ih =>
    obtain ⟨history, recorded, reachedBefore⟩ := ih fresh.left
    have distinct := fresh.distinct
    rw [map_append, map_singleton, nodup_append] at distinct
    have unused : call.newVersionToken ∉ calls.map Call.newVersionToken := by
      intro member
      exact distinct.2.2 _ member _ mem_cons_self rfl
    have unknown := fresh.unknown call (mem_append_right _ mem_cons_self)
    obtain ⟨longer, extended, change⟩ := recorded.apply call unused unknown
    have last : initial.run (calls ++ [call]) = (call.apply (initial.run calls)).1 :=
      run_append initial calls [call]
    rw [last]
    refine ⟨longer, extended.more_tokens ?_, ?_⟩
    · intro token member
      rw [map_append, mem_append]
      rcases mem_cons.1 member with rfl | earlier
      · exact .inr mem_cons_self
      · exact .inl earlier
    · intro key first isFirst state reached
      have old : state ∈ reachedStates first.pointer (history key) →
          ∃ before, before <+: calls ++ [call] ∧
            ∃ table, (initial.run before).tables.get key = some table ∧ table.pointer = state := by
        intro isOld
        obtain ⟨before, isBefore, table, found, pointer⟩ := reachedBefore key first isFirst state isOld
        exact ⟨before, isBefore.trans (prefix_append _ _), table, found, pointer⟩
      rcases change key with same | ⟨log, table, newest, found, pointer⟩
      · rw [same] at reached
        exact old reached
      · rw [newest] at reached
        rcases mem_cons.1 reached with rfl | isOld
        · exact ⟨calls ++ [call], prefix_rfl, table, last ▸ found, pointer⟩
        · exact old isOld

end Runs

variable {call : Call Json}

section Range

variable {tableBucket tableId : String} (state : StrongTableCatalogState Json)

theorem commit_key_le (sameBucket : (ofLex place).1 = tableBucket)
    (sameId : (ofLex (ofLex place).2).1 = tableId) : commitKey tableBucket tableId "" ≤ place := by
  refine Prod.Lex.le_iff'.2 ⟨sameBucket.ge, fun _ => ?_⟩
  refine Prod.Lex.le_iff'.2 ⟨sameId.ge, fun _ => ?_⟩
  exact not_lt.1 fun less => not_lt_nil _ (String.lt_iff_toList_lt.1 less)

theorem between_commit_keys {later : StrongCommitKey}
    (above : commitKey tableBucket tableId "" ≤ place) (below : place ≤ later)
    (sameBucket : (ofLex later).1 = tableBucket) (sameId : (ofLex (ofLex later).2).1 = tableId) :
    (ofLex place).1 = tableBucket ∧ (ofLex (ofLex place).2).1 = tableId := by
  obtain ⟨fromBucket, fromRest⟩ := Prod.Lex.le_iff'.1 above
  obtain ⟨toBucket, toRest⟩ := Prod.Lex.le_iff'.1 below
  rw [sameBucket] at toBucket
  have bucket : (ofLex place).1 = tableBucket := le_antisymm toBucket fromBucket
  obtain ⟨fromId, _⟩ := Prod.Lex.le_iff'.1 (fromRest bucket.symm)
  obtain ⟨toId, _⟩ := Prod.Lex.le_iff'.1 (toRest (bucket.trans sameBucket.symm))
  rw [sameId] at toId
  exact ⟨bucket, le_antisymm toId fromId⟩

omit [DecidableEq Json] in
theorem table_commits_eq_filter (tableBucket tableId : String) :
    state.tableCommitsLocked tableBucket tableId =
      (state.commits.entries.filter fun entry =>
        (ofLex entry.1).1 = tableBucket && (ofLex (ofLex entry.1).2).1 = tableId).map Prod.snd := by
  unfold tableCommitsLocked
  rw [range_eq_filter state.commits.sorted]
  · intro entry inside
    simp only [Bool.and_eq_true, decide_eq_true_eq] at inside
    exact commit_key_le inside.1 inside.2
  · intro entry later above below inside
    simp only [Bool.and_eq_true, decide_eq_true_eq] at inside ⊢
    exact between_commit_keys above below inside.1 inside.2

end Range

section Index

variable {initial state : StrongTableCatalogState Json}
  {history : StrongResourceKey → List (CommitLogEntry Json)} {tokens : List String}

/-- Tables of different keys have different ids. -/
def DistinctIds (initial : StrongTableCatalogState Json) : Prop :=
  ∀ key other first second, initial.tables.get key = some first →
    initial.tables.get other = some second → first.tableId = second.tableId → key = other

omit [DecidableEq Json] in
theorem Recorded.same_key (recorded : Recorded initial state history tokens)
    (distinct : DistinctIds initial) {key other : StrongResourceKey}
    {log : CommitLogEntry Json} (found : state.tables.get key = some table)
    (member : log ∈ history other) (sameId : log.tableId = table.tableId) : other = key := by
  obtain ⟨first, isFirst⟩ := recorded.found_first found
  obtain ⟨second, isSecond, id, _, _⟩ := recorded.logs other log member
  apply distinct other key second first isSecond isFirst
  rw [← id, sameId, (recorded.table key first table isFirst found).1]

omit [DecidableEq Json] in
theorem Recorded.table_commits (recorded : Recorded initial state history tokens)
    (distinct : DistinctIds initial) {key : StrongResourceKey}
    (found : state.tables.get key = some table) :
    (state.tableCommitsLocked (keyBucket key) table.tableId).Nodup ∧
      ∀ log, log ∈ state.tableCommitsLocked (keyBucket key) table.tableId ↔ log ∈ history key := by
  obtain ⟨first, isFirst⟩ := recorded.found_first found
  have sameId := (recorded.table key first table isFirst found).1
  rw [table_commits_eq_filter]
  constructor
  · apply List.Nodup.map_on _ (state.commits.entries_nodup.filter _)
    rintro ⟨place, log⟩ inside ⟨other, log'⟩ otherInside rfl
    obtain ⟨inside, ofTable⟩ := mem_filter.1 inside
    obtain ⟨otherInside, _⟩ := mem_filter.1 otherInside
    obtain ⟨owner, member, rfl⟩ := (recorded.commits place log).1 (get_eq_some.2 inside)
    obtain ⟨otherOwner, otherMember, rfl⟩ :=
      (recorded.commits other log).1 (get_eq_some.2 otherInside)
    simp only [Bool.and_eq_true, decide_eq_true_eq] at ofTable
    rw [recorded.same_key distinct found member ofTable.2,
      recorded.same_key distinct found otherMember ofTable.2]
  · intro log
    constructor
    · intro member
      obtain ⟨⟨place, other⟩, inside, rfl⟩ := mem_map.1 member
      obtain ⟨inside, ofTable⟩ := mem_filter.1 inside
      obtain ⟨owner, isLog, rfl⟩ := (recorded.commits place other).1 (get_eq_some.2 inside)
      simp only [Bool.and_eq_true, decide_eq_true_eq] at ofTable
      rw [← recorded.same_key distinct found isLog ofTable.2]
      exact isLog
    · intro member
      obtain ⟨second, isSecond, id, _, _⟩ := recorded.logs key log member
      rw [isFirst] at isSecond
      cases isSecond
      have entry := get_eq_some.1 ((recorded.commits _ log).2 ⟨key, member, rfl⟩)
      refine mem_map.2 ⟨_, mem_filter.2 ⟨entry, ?_⟩, rfl⟩
      simp only [Bool.and_eq_true, decide_eq_true_eq]
      exact ⟨rfl, id.trans sameId.symm⟩

omit [DecidableEq Json] in
theorem Recorded.proves_committed (recorded : Recorded initial state history tokens)
    (distinct : DistinctIds initial) {key : StrongResourceKey}
    (isFirst : initial.tables.get key = some first) (found : state.tables.get key = some table)
    (target : CommitLogEntry Json) :
    (TableCommitHistoryIndex.new table
      (state.tableCommitsLocked (keyBucket key) table.tableId)).provesCommitted target = true ↔
      target.tableId = table.tableId ∧ target.status ≠ .failed ∧
        target.newState ∈ reachedStates first.pointer (history key) := by
  obtain ⟨sameId, _, pointer⟩ := recorded.table key first table isFirst found
  obtain ⟨once, members⟩ := recorded.table_commits distinct found
  apply TableCommitHistoryIndex.new_over_history (recorded.linked key first isFirst) pointer _ once members
  intro log member
  obtain ⟨second, isSecond, id, committed, _⟩ := recorded.logs key log member
  rw [isFirst] at isSecond
  cases isSecond
  exact ⟨id.trans sameId.symm, committed⟩

end Index

def Call.Changes (call : Call Json) (state : StrongTableCatalogState Json) : Prop :=
  (call.apply state).1.tables ≠ state.tables

structure CompareAndSwap (initial : StrongTableCatalogState Json) (calls : List (Call Json)) : Prop where
  once : ∀ before call between later after, calls = before ++ call :: (between ++ later :: after) →
    call.Changes (initial.run before) → later.Changes (initial.run (before ++ call :: between)) →
      call.target (initial.run before) ≠ later.target (initial.run (before ++ call :: between))
  swaps : ∀ before call after, calls = before ++ call :: after → call.Changes (initial.run before) →
    ∃ table next, (initial.run before).tables.get call.key = some table ∧
      call.request.expectedVersionToken = table.versionToken ∧
      call.request.expectedMetadataLocation = table.metadataLocation ∧
      (call.apply (initial.run before)).1.tables = (initial.run before).tables.insert call.key next ∧
      next.tableId = table.tableId ∧ next.metadataLocation = call.request.newMetadataLocation ∧
      next.versionToken = call.newVersionToken ∧ next.generation = table.generation + 1
  replays : ∀ before call between later after result,
    calls = before ++ call :: (between ++ later :: after) →
      (call.apply (initial.run before)).2 = .ok result → later.request = call.request →
      later.namespaceName = call.namespaceName → later.table = call.table →
        ∃ table, later.apply (initial.run (before ++ call :: between)) =
          (initial.run (before ++ call :: between), .ok ⟨table, result.commitLog⟩)
  failures : ∀ before call after error, calls = before ++ call :: after →
    (call.apply (initial.run before)).2 = .error error →
      (call.apply (initial.run before)).1 = initial.run before
  proven : ∀ key table, (initial.run calls).tables.get key = some table →
    ∀ place log, (initial.run calls).commits.get place = some log → log.tableId = table.tableId →
      (TableCommitHistoryIndex.new table
        ((initial.run calls).tableCommitsLocked (keyBucket key) table.tableId)).provesCommitted log = true
  unproven : ∀ key table, (initial.run calls).tables.get key = some table →
    ∀ log : CommitLogEntry Json, log.tableId = table.tableId →
      (∀ before, before <+: calls → ∀ earlier, (initial.run before).tables.get key = some earlier →
        earlier.pointer ≠ log.newState) →
      (TableCommitHistoryIndex.new table
        ((initial.run calls).tableCommitsLocked (keyBucket key) table.tableId)).provesCommitted log = false

def GenerationsBelowMax (initial : StrongTableCatalogState Json) (calls : List (Call Json)) : Prop :=
  ∀ before, before <+: calls → ∀ key table, (initial.run before).tables.get key = some table →
    table.generation < StrongTableCatalogState.maxGeneration

theorem StrongTableCatalogState.Settled.changes {state : StrongTableCatalogState Json}
    (settled : state.Settled) (changes : call.Changes state) :
    ∃ table, state.Open call table ∧ state.commits.get (call.recordKey table) = none ∧
      table.versionToken = call.request.expectedVersionToken ∧
      table.metadataLocation = call.request.expectedMetadataLocation ∧
      (call.apply state).1 =
        { state.recordCommitted call.request.tableBucket table.tableId (call.log table) with
          tables := state.tables.insert call.key (call.next table) } := by
  unfold Call.Changes at changes
  rcases apply_cases settled call with ⟨error, failed⟩ |
      ⟨table, log, _, _, _, answered⟩ | ⟨table, opened, missing, _, token, location, moves⟩
  · rw [failed] at changes
    exact absurd rfl changes
  · rw [answered] at changes
    exact absurd rfl changes
  · exact ⟨table, opened, missing, token, location, by rw [moves]⟩

theorem StrongTableCatalogState.Settled.succeeds {state : StrongTableCatalogState Json}
    (settled : state.Settled) {result : TableCommitResult Json}
    (succeeds : (call.apply state).2 = .ok result) :
    ∃ table, state.Open call table ∧
      (call.apply state).1.commits.get (call.recordKey table) = some result.commitLog ∧
      commitLogMatchesRequest result.commitLog call.request table.tableId = true := by
  rcases apply_cases settled call with ⟨error, failed⟩ |
      ⟨table, log, opened, found, matched, answered⟩ | ⟨table, opened, _, _, _, location, moves⟩
  · rw [failed] at succeeds
    cases succeeds
  · rw [answered] at succeeds ⊢
    cases succeeds
    exact ⟨table, opened, found, matched⟩
  · rw [moves] at succeeds ⊢
    cases succeeds
    refine ⟨table, opened, ?_, ?_⟩
    · change (state.commits.insert (call.recordKey table) (call.log table)).get _ = _
      rw [get_insert, if_pos rfl]
    · simp [commitLogMatchesRequest, Call.log, newCommitLog, location]

section Sequence

variable {initial : StrongTableCatalogState Json} (noCommits : initial.commits = KeyMap.empty)
  {calls before between : List (Call Json)} {log : CommitLogEntry Json}

include noCommits

theorem run_settled (fresh : FreshTokens initial calls) : (initial.run calls).Settled := by
  obtain ⟨history, recorded, _⟩ := run_recorded noCommits calls fresh
  exact recorded.settled

theorem run_keeps_commit
    (fresh : FreshTokens initial (before ++ between)) (found : (initial.run before).commits.get place = some log) :
    (initial.run (before ++ between)).commits.get place = some log := by
  induction between using List.reverseRecOn with
  | nil => rwa [append_nil]
  | append_singleton between call ih =>
    rw [← append_assoc] at fresh ⊢
    rw [run_append]
    exact apply_keeps_commit
      (run_settled noCommits fresh.left) (ih fresh.left)

variable {call later : Call Json} {table : TableEntry}

theorem run_opens (fresh : FreshTokens initial (before ++ between))
    (opened : (initial.run before).Open call table) (sameKey : later.key = call.key) :
    ∃ current, (initial.run (before ++ between)).Open later current ∧
      current.tableId = table.tableId := by
  obtain ⟨history, recorded, _⟩ := run_recorded noCommits before fresh.left
  obtain ⟨longer, extended, _⟩ := run_recorded noCommits (before ++ between) fresh
  obtain ⟨first, isFirst⟩ := recorded.found_first opened.found
  obtain ⟨oldId, oldState, _⟩ := recorded.table _ _ _ isFirst opened.found
  have present := extended.present call.key
  rw [isFirst] at present
  obtain ⟨current, found⟩ := Option.isSome_iff_exists.1 present
  obtain ⟨newId, newState, _⟩ := extended.table _ _ _ isFirst found
  refine ⟨current, ⟨?_, sameKey ▸ found, ?_⟩, newId.trans oldId.symm⟩
  · rw [sameKey, extended.collisions, ← recorded.collisions]
    exact opened.unambiguous
  · rw [newState, ← oldState]
    exact opened.active

theorem run_replays (distinct : DistinctIds initial) (fresh : FreshTokens initial (before ++ call :: between))
    {result : TableCommitResult Json} (succeeds : (call.apply (initial.run before)).2 = .ok result)
    (sameRequest : later.request = call.request) (sameKey : later.key = call.key) :
    ∃ table, later.apply (initial.run (before ++ call :: between)) =
      (initial.run (before ++ call :: between), .ok ⟨table, result.commitLog⟩) := by
  obtain ⟨table, opened, found, matched⟩ := (run_settled noCommits fresh.left).succeeds succeeds
  obtain ⟨current, reopened, sameId⟩ := run_opens noCommits fresh opened sameKey
  have step : initial.run (before ++ [call]) = (call.apply (initial.run before)).1 :=
    run_append initial before [call]
  have joined : before ++ call :: between = (before ++ [call]) ++ between := by simp
  have kept : (initial.run (before ++ call :: between)).commits.get (later.recordKey current) =
      some result.commitLog := by
    have samePlace : later.recordKey current = call.recordKey table := by
      unfold Call.recordKey
      rw [sameRequest, sameId]
    rw [samePlace, joined]
    rw [joined] at fresh
    exact run_keeps_commit noCommits fresh (step ▸ found)
  obtain ⟨history, recorded, _⟩ := run_recorded noCommits _ fresh
  refine ⟨current, recorded.replayed reopened kept ?_ distinct⟩
  rw [sameRequest, sameId]
  exact matched

theorem run_once (distinct : DistinctIds initial) (fresh : FreshTokens initial (before ++ call :: between))
    (changes : call.Changes (initial.run before))
    (changesLater : later.Changes (initial.run (before ++ call :: between))) :
    call.target (initial.run before) ≠ later.target (initial.run (before ++ call :: between)) := by
  intro sameTarget
  obtain ⟨table, opened, _, _, _, moves⟩ := (run_settled noCommits fresh.left).changes changes
  obtain ⟨current, reopened, missing, _⟩ := (run_settled noCommits fresh).changes changesLater
  unfold Call.target at sameTarget
  rw [opened.found, reopened.found, Option.map_some, Option.map_some, Option.some_inj,
    Prod.mk.injEq] at sameTarget
  obtain ⟨sameId, sameCommit⟩ := sameTarget
  have sameKey : call.key = later.key := by
    obtain ⟨history, recorded, _⟩ := run_recorded noCommits _ fresh
    obtain ⟨older, was, _⟩ := run_recorded noCommits _ fresh.left
    obtain ⟨first, isFirst⟩ := was.found_first opened.found
    obtain ⟨second, isSecond⟩ := recorded.found_first reopened.found
    apply distinct _ _ first second isFirst isSecond
    rw [← (was.table _ _ _ isFirst opened.found).1, sameId,
      (recorded.table _ _ _ isSecond reopened.found).1]
  have sameBucket : call.request.tableBucket = later.request.tableBucket :=
    congrArg keyBucket sameKey
  have samePlace : later.recordKey current = call.recordKey table := by
    unfold Call.recordKey
    rw [sameBucket, sameId, sameCommit]
  have joined : before ++ call :: between = (before ++ [call]) ++ between := by simp
  have step : initial.run (before ++ [call]) = (call.apply (initial.run before)).1 :=
    run_append initial before [call]
  have recordedThen : (initial.run (before ++ [call])).commits.get (call.recordKey table) =
      some (call.log table) := by
    rw [step, moves]
    change ((initial.run before).commits.insert (call.recordKey table) (call.log table)).get _ = _
    rw [get_insert, if_pos rfl]
  rw [joined] at fresh
  have kept := run_keeps_commit noCommits fresh recordedThen
  rw [← joined, ← samePlace, missing] at kept
  cases kept

theorem run_swaps {before : List (Call Json)} (fresh : FreshTokens initial before)
    (below : ∀ key table, (initial.run before).tables.get key = some table →
      table.generation < StrongTableCatalogState.maxGeneration)
    (changes : call.Changes (initial.run before)) :
    ∃ table next, (initial.run before).tables.get call.key = some table ∧
      call.request.expectedVersionToken = table.versionToken ∧
      call.request.expectedMetadataLocation = table.metadataLocation ∧
      (call.apply (initial.run before)).1.tables = (initial.run before).tables.insert call.key next ∧
      next.tableId = table.tableId ∧ next.metadataLocation = call.request.newMetadataLocation ∧
      next.versionToken = call.newVersionToken ∧ next.generation = table.generation + 1 := by
  obtain ⟨table, opened, _, token, location, moves⟩ := (run_settled noCommits fresh).changes changes
  refine ⟨table, call.next table, opened.found, token.symm, location.symm, ?_, rfl, rfl, rfl, ?_⟩
  · rw [moves]
  · exact min_eq_left (below _ _ opened.found)

section

variable {key : StrongResourceKey} (distinct : DistinctIds initial)
  (fresh : FreshTokens initial calls) (found : (initial.run calls).tables.get key = some table)

include distinct fresh found

theorem run_proves (recordedLog : (initial.run calls).commits.get place = some log)
    (sameId : log.tableId = table.tableId) :
    (TableCommitHistoryIndex.new table
      ((initial.run calls).tableCommitsLocked (keyBucket key) table.tableId)).provesCommitted log = true := by
  obtain ⟨history, recorded, _⟩ := run_recorded noCommits calls fresh
  obtain ⟨first, isFirst⟩ := recorded.found_first found
  obtain ⟨owner, member, _⟩ := (recorded.commits place log).1 recordedLog
  have isOwner : owner = key := recorded.same_key distinct found member sameId
  subst isOwner
  apply (recorded.proves_committed distinct isFirst found log).2
  refine ⟨sameId, ?_, mem_append_left _ (mem_map_of_mem member)⟩
  obtain ⟨_, _, _, committed, _⟩ := recorded.logs owner log member
  simp [committed]

theorem run_does_not_prove
    (never : ∀ before, before <+: calls → ∀ earlier, (initial.run before).tables.get key = some earlier →
      earlier.pointer ≠ log.newState) :
    (TableCommitHistoryIndex.new table
      ((initial.run calls).tableCommitsLocked (keyBucket key) table.tableId)).provesCommitted log = false := by
  obtain ⟨history, recorded, reached⟩ := run_recorded noCommits calls fresh
  obtain ⟨first, isFirst⟩ := recorded.found_first found
  rw [← Bool.not_eq_true, recorded.proves_committed distinct isFirst found log]
  rintro ⟨_, _, isReached⟩
  obtain ⟨before, isBefore, earlier, wasFound, pointer⟩ := reached key first isFirst _ isReached
  exact never before isBefore earlier wasFound pointer

end

end Sequence

omit [DecidableEq Json] in
theorem Call.key_congr {later : Call Json} (sameRequest : later.request = call.request)
    (sameNamespace : later.namespaceName = call.namespaceName) (sameTable : later.table = call.table) :
    later.key = call.key := by
  unfold Call.key
  rw [sameRequest, sameNamespace, sameTable]

/-- Commits are compare-and-swap and take effect once, for every sequence of calls on a store
without commits whose tables have different ids. Tokens are fresh and generations stay below their
maximum. -/
theorem commits_compare_and_swap (initial : StrongTableCatalogState Json) (calls : List (Call Json))
    (distinct : DistinctIds initial) (noCommits : initial.commits = KeyMap.empty)
    (fresh : FreshTokens initial calls) (below : GenerationsBelowMax initial calls) :
    CompareAndSwap initial calls where
  once := by
    intro before call between later after split changes changesLater
    have joined : calls = (before ++ call :: between) ++ (later :: after) := by simp [split]
    rw [joined] at fresh
    exact run_once noCommits distinct fresh.left changes changesLater
  swaps := by
    intro before call after split changes
    have isBefore : before <+: calls := ⟨call :: after, split.symm⟩
    rw [split] at fresh
    exact run_swaps noCommits fresh.left (below before isBefore) changes
  replays := by
    intro before call between later after result split succeeds sameRequest sameNamespace sameTable
    have joined : calls = (before ++ call :: between) ++ (later :: after) := by simp [split]
    rw [joined] at fresh
    exact run_replays noCommits distinct fresh.left succeeds sameRequest
      (Call.key_congr sameRequest sameNamespace sameTable)
  failures := by
    intro before call after error split fails
    rw [split] at fresh
    rcases StrongTableCatalogState.apply_cases (run_settled noCommits fresh.left) call with
      ⟨_, failed⟩ | ⟨_, _, _, _, _, answered⟩ | ⟨_, _, _, _, _, _, moves⟩
    · rw [failed]
    · rw [answered]
    · rw [moves] at fails
      cases fails
  proven := by
    intro key table found place log recordedLog sameId
    exact run_proves noCommits distinct fresh found recordedLog sameId
  unproven := by
    intro key table found log _ never
    exact run_does_not_prove noCommits distinct fresh found never

def ordersTable : TableEntry where
  tableBucket := "lake"
  tableId := "t1"
  formatVersion := 2
  warehouseLocation := "s3://lake/orders"
  metadataLocation := "orders/metadata/v1.json"
  versionToken := "token-0"
  generation := 0
  state := .active

def ordersCatalog : StrongTableCatalogState Unit where
  tables := KeyMap.empty.insert (tableKey "lake" "sales" "orders") ordersTable
  commits := KeyMap.empty
  idempotency := KeyMap.empty
  warehouseIndex := KeyMap.empty
  identifierCollisions := []

def ordersCall (newVersionToken : String) : Call Unit where
  request :=
    { tableBucket := "lake"
      namespace_ := "sales"
      table := "orders"
      commitId := "c1"
      idempotencyKey := some "k1"
      operation := "append"
      expectedVersionToken := "token-0"
      expectedMetadataLocation := "orders/metadata/v1.json"
      newMetadataLocation := "orders/metadata/v2.json"
      requirements := []
      writer := none }
  namespaceName := "sales"
  table := "orders"
  nextMetadataState := ⟨none, none⟩
  newVersionToken := newVersionToken

def ordersCalls : List (Call Unit) := [ordersCall "token-1", ordersCall "token-2"]

theorem orders_found {key : StrongResourceKey} (found : ordersCatalog.tables.get key = some first) :
    key = tableKey "lake" "sales" "orders" ∧ first = ordersTable := by
  rcases (get_insert_fresh (by rfl)).1 found with ⟨sameKey, sameTable⟩ | absent
  · exact ⟨sameKey, sameTable⟩
  · cases absent

theorem orders_generations : ∀ before ∈ ordersCalls.inits,
    ∀ entry ∈ (ordersCatalog.run before).tables.entries,
      entry.2.generation < StrongTableCatalogState.maxGeneration := by
  decide +kernel

theorem orders_compare_and_swap :
    CompareAndSwap ordersCatalog ordersCalls ∧
      (ordersCatalog.run ordersCalls).tables.entries.map (fun entry => entry.2.generation) = [1] := by
  refine ⟨commits_compare_and_swap ordersCatalog ordersCalls ?_ rfl ⟨by decide, ?_⟩ ?_, by decide +kernel⟩
  · intro key other first second isFirst isSecond _
    rw [(orders_found isFirst).1, (orders_found isSecond).1]
  · intro call member key first isFirst
    rw [(orders_found isFirst).2]
    revert call
    decide
  · intro before isBefore key table found
    exact orders_generations before ((mem_inits _ _).2 isBefore) _ (KeyMap.get_eq_some.1 found)

end Rustfs.TableCatalog
