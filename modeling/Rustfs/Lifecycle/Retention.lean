import Rustfs.Lifecycle.Evaluator
import Rustfs.Lifecycle.Urgency
import Rustfs.Lifecycle.Validate

/-!
# Retained noncurrent versions

A rule for noncurrent versions keeps a number of the newest ones. The evaluation of all versions
counts the noncurrent versions it spares while it decides, and a noncurrent version is deleted
exactly if the spared ones before it reach the number of a rule whose time has come. A version that
is locked, waits for replication or has no id is spared by the guards of the evaluation.
-/

namespace Rustfs.Lifecycle

open List Option Bool Filemeta

/-- The rule deletes a noncurrent version that follows the given number of spared ones: its age
is over, and the spared ones reach the number that the rule retains. -/
structure ExpiresNoncurrent (host : Host) (obj : ObjectOpts) (now : OffsetDateTime)
    (newerNoncurrent : Nat) (rule : LifecycleRule) (expiration : NoncurrentVersionExpiration)
    (successorModTime : OffsetDateTime) : Prop where
  isExpiration : rule.noncurrentVersionExpiration = some expiration
  active : expiration.noncurrentDays.isSome = true ∨
    ∃ count, expiration.newerNoncurrentVersions = some count ∧ 0 < count
  isSuccessor : obj.successorModTime = some successorModTime
  ageReached : unixTimestamp
    (expectedExpiryTime host successorModTime (expiration.noncurrentDays.getD 0)) ≤ unixTimestamp now
  pastRetained : expiration.newerNoncurrentVersions.getD 0 ≤ newerNoncurrent

section Version

variable {host : Host} {obj : ObjectOpts} {now modTime : OffsetDateTime} {newerNoncurrent : Nat}
  {rule : LifecycleRule} {config : BucketLifecycleConfiguration}

theorem past_retained_iff (newerNoncurrent : Nat) {retain : Option Int}
    (intact : ∀ count, retain = some count → 0 ≤ count) :
    pastRetained newerNoncurrent retain = true ↔ retain.getD 0 ≤ newerNoncurrent := by
  cases retain with
  | none => simp [pastRetained]
  | some count =>
    have nonnegative := intact count rfl
    simp [pastRetained, LifecycleRule.retainedNoncurrentVersions, nonnegative]

theorem intact_expiration_count {expiration : NoncurrentVersionExpiration}
    (intact : rule.hasCorruptRetentionCount = false)
    (isExpiration : rule.noncurrentVersionExpiration = some expiration) (count : Int)
    (isCount : expiration.newerNoncurrentVersions = some count) : 0 ≤ count := by
  simp only [LifecycleRule.hasCorruptRetentionCount, isExpiration, bind_some, isCount,
    toList_some, singleton_append, any_cons, or_eq_false_iff] at intact
  by_contra negative
  simp [LifecycleRule.retainedNoncurrentVersions, negative] at intact

/-- A rule gives a noncurrent version an event for its deletion if it expires the version. -/
theorem noncurrent_expiration_iff (noncurrent : obj.isLatest = false)
    (intact : rule.hasCorruptRetentionCount = false) :
    (∃ event, event ∈ noncurrentExpirationEvents host obj now newerNoncurrent rule) ↔
      ∃ expiration successorModTime,
        ExpiresNoncurrent host obj now newerNoncurrent rule expiration successorModTime := by
  unfold noncurrentExpirationEvents
  cases isExpiration : rule.noncurrentVersionExpiration with
  | none =>
    constructor
    · rintro ⟨event, member⟩
      cases member
    · rintro ⟨expiration, successorModTime, expires⟩
      cases isExpiration.symm.trans expires.isExpiration
  | some expiration =>
    have retained := past_retained_iff newerNoncurrent
      (intact_expiration_count intact isExpiration)
    constructor
    · rintro ⟨event, member⟩
      dsimp only at member
      split at member
      · rename_i due
        simp only [noncurrent, Bool.not_false, Bool.true_and, and_eq_true, or_eq_true,
          retained] at due
        split at member
        · cases member
        · rename_i successorModTime isSuccessor
          split at member
          · rename_i age
            refine ⟨expiration, successorModTime, isExpiration, ?_, isSuccessor, age, due.2⟩
            simpa [Option.any_eq_true] using due.1
          · cases member
      · cases member
    · rintro ⟨other, successorModTime, expires⟩
      obtain rfl : expiration = other :=
        Option.some.inj (isExpiration.symm.trans expires.isExpiration)
      refine ⟨rule.dueEvent .deleteVersionAction (expectedExpiryTime host successorModTime
        (expiration.noncurrentDays.getD 0)), ?_⟩
      have active : (expiration.noncurrentDays.isSome ||
          expiration.newerNoncurrentVersions.any fun count => 0 < count) = true := by
        simpa [Option.any_eq_true] using expires.active
      simp only [noncurrent, Bool.not_false, active, retained.2 expires.pastRetained, Bool.and_self,
        if_true, expires.isSuccessor, expires.ageReached]
      exact mem_singleton.2 rfl

theorem noncurrent_first_event {event : Event} (noncurrent : obj.isLatest = false)
    (member : event ∈ (ruleEvents host obj now modTime newerNoncurrent rule).1)
    (first : ilmActionPriorityRank event.action = 0) :
    event ∈ noncurrentExpirationEvents host obj now newerNoncurrent rule := by
  rw [rule_events_noncurrent noncurrent] at member
  rcases mem_append.1 member with expires | transitions
  · exact expires
  · rw [noncurrent_transition_action transitions] at first
    cases first

theorem noncurrent_deletion_iff (intact : ∀ rule ∈ config.rules, rule.hasCorruptRetentionCount = false)
    (noncurrent : obj.isLatest = false) (usable : lifecycleModTime obj = some modTime) :
    (config.evalInner host obj now newerNoncurrent).action = .deleteVersionAction ↔
      ∃ rule ∈ config.applicableRules host obj, ∃ expiration successorModTime,
        ExpiresNoncurrent host obj now newerNoncurrent rule expiration successorModTime := by
  have goesOn : ∀ rule, (ruleEvents host obj now modTime newerNoncurrent rule).2 = false := by
    intro rule
    rw [rule_events_noncurrent noncurrent]
  have expires := fun rule (member : rule ∈ config.applicableRules host obj) =>
    @noncurrent_expiration_iff host obj now newerNoncurrent rule noncurrent
      (intact rule (applicable_rules_mem member))
  constructor
  · intro deletes
    have first : ilmActionPriorityRank (config.evalInner host obj now newerNoncurrent).action = 0 := by
      rw [deletes]
      rfl
    obtain ⟨rule, isRule, member⟩ := eval_inner_first_mem intact goesOn usable first
    exact ⟨rule, isRule, (expires rule isRule).1 ⟨_, noncurrent_first_event noncurrent member first⟩⟩
  · rintro ⟨rule, isRule, passed⟩
    obtain ⟨event, isEvent⟩ := (expires rule isRule).2 passed
    have first : ilmActionPriorityRank (config.evalInner host obj now newerNoncurrent).action = 0 := by
      refine (eval_inner_first_iff intact goesOn usable).2 ⟨rule, isRule, event, ?_, ?_⟩
      · rw [rule_events_noncurrent noncurrent]
        exact mem_append_left _ isEvent
      · rw [noncurrent_expiration_action isEvent]
        rfl
    obtain ⟨other, _, member⟩ := eval_inner_first_mem intact goesOn usable first
    exact noncurrent_expiration_action (noncurrent_first_event noncurrent member first)

end Version

namespace Evaluator

section Versions

variable {host : Host} {evaluator : Evaluator} {objs : List ObjectOpts} {now : OffsetDateTime}
  {newerNoncurrent : Nat} {obj : ObjectOpts}

/-- The spared ones among the first versions. -/
def sparedBefore (objs : List ObjectOpts) (events : List Event) (i : Nat) : Nat :=
  ((objs.zip events).take i).countP fun version =>
    !version.1.isLatest && version.2.action ≠ .deleteVersionAction

theorem spared_before_succ (obj : ObjectOpts) (objs : List ObjectOpts) (event : Event)
    (events : List Event) (newerNoncurrent i : Nat) :
    newerNoncurrent + sparedBefore (obj :: objs) (event :: events) (i + 1) =
      spared newerNoncurrent obj event + sparedBefore objs events i := by
  unfold sparedBefore spared
  rw [zip_cons_cons, take_succ_cons, countP_cons]
  split <;> omega

theorem version_event_ended
    (ended : (evaluator.versionEvent host objs now newerNoncurrent obj).2 = true) :
    (evaluator.versionEvent host objs now newerNoncurrent obj).1.action.deleteAll = true := by
  unfold versionEvent at ended ⊢
  dsimp only at ended ⊢
  split
  · rename_i all
    rw [if_pos all] at ended
    split
    · rename_i held
      rw [if_pos held] at ended
      cases ended
    · exact all
  · rename_i notAll
    rw [if_neg notAll] at ended
    split at ended <;> cases ended

/-- Induction over the versions that are left: a version is decided with the spared ones before
it, unless an event for all versions is before it. -/
theorem eval_from_at (rest : List ObjectOpts) : ∀ (newerNoncurrent i : Nat) (obj : ObjectOpts)
    (event : Event), rest[i]? = some obj →
      (evaluator.evalFrom host objs now newerNoncurrent rest)[i]? = some event →
      event = (evaluator.versionEvent host objs now (newerNoncurrent +
          sparedBefore rest (evaluator.evalFrom host objs now newerNoncurrent rest) i) obj).1 ∨
        event = .default ∧ ∃ j < i, ∃ ending,
          (evaluator.evalFrom host objs now newerNoncurrent rest)[j]? = some ending ∧
          ending.action.deleteAll = true := by
  induction rest with
  | nil =>
    intro newerNoncurrent i obj event isObj
    cases isObj
  | cons first rest ih =>
    intro newerNoncurrent i obj event isObj isEvent
    rw [evalFrom] at isEvent ⊢
    split
    · rename_i ended
      rw [if_pos ended] at isEvent
      cases i with
      | zero =>
        cases isObj
        cases isEvent
        exact .inl rfl
      | succ i =>
        rw [getElem?_cons_succ, getElem?_map, map_eq_some_iff] at isEvent
        obtain ⟨_, _, rfl⟩ := isEvent
        exact .inr ⟨rfl, 0, Nat.succ_pos i, _, rfl, version_event_ended ended⟩
    · rename_i goesOn
      rw [if_neg goesOn] at isEvent
      cases i with
      | zero =>
        cases isObj
        cases isEvent
        exact .inl rfl
      | succ i =>
        rw [spared_before_succ]
        rcases ih _ i obj event isObj isEvent with decided | ⟨isDefault, j, earlier, ending, isEnding, all⟩
        · exact .inl decided
        · exact .inr ⟨isDefault, j + 1, Nat.succ_lt_succ earlier, ending, isEnding, all⟩

theorem admitted_event_cases (newerNoncurrent : Nat) (obj : ObjectOpts) :
    evaluator.admittedEvent host now newerNoncurrent obj = .default ∨
      evaluator.admittedEvent host now newerNoncurrent obj =
        evaluator.policy.evalInner host obj now newerNoncurrent := by
  unfold admittedEvent
  rcases replication_guard_cases obj
    (targetGuard obj (evaluator.policy.evalInner host obj now newerNoncurrent)) with taken | passes
  · exact .inl taken
  · rw [passes.1]
    unfold targetGuard
    split
    · exact .inr rfl
    · exact .inl rfl

theorem admitted_event_passes (valid : expirationActionHasValidTarget
      (evaluator.policy.evalInner host obj now newerNoncurrent).action obj.versionId obj.isLatest
      obj.deleteMarker = true) (idle : isPendingReplication obj = false) :
    evaluator.admittedEvent host now newerNoncurrent obj =
      evaluator.policy.evalInner host obj now newerNoncurrent := by
  simp [admittedEvent, targetGuard, replicationGuard, valid, idle]

theorem version_event_deletion_iff (noncurrent : obj.isLatest = false) :
    (evaluator.versionEvent host objs now newerNoncurrent obj).1.action = .deleteVersionAction ↔
      (evaluator.policy.evalInner host obj now newerNoncurrent).action = .deleteVersionAction ∧
        obj.versionId.isSome = true ∧ isPendingReplication obj = false ∧
        evaluator.isObjectLocked host obj = false := by
  constructor
  · intro deletes
    have one : (evaluator.versionEvent host objs now newerNoncurrent obj).1.action.deletesOne = true := by
      rw [deletes]
      rfl
    have removable := (version_event_protects newerNoncurrent obj [] (fun _ => by simp)).one one
    have isAdmitted : (evaluator.versionEvent host objs now newerNoncurrent obj).1 =
        evaluator.admittedEvent host now newerNoncurrent obj := by
      unfold versionEvent at deletes ⊢
      dsimp only at deletes ⊢
      split
      · rename_i all
        rw [if_pos all] at deletes
        split at deletes
        · cases deletes
        · rw [deletes] at all
          cases all
      · split
        · rename_i locked
          rw [removable.unlocked, Bool.and_false] at locked
          cases locked
        · rfl
    rw [isAdmitted] at deletes one
    obtain ⟨idle, valid⟩ := admitted_deletion newerNoncurrent obj (.inl one)
    rw [deletes] at valid
    rcases @admitted_event_cases host evaluator now newerNoncurrent obj with isDefault | isPolicy
    · rw [isDefault] at deletes
      cases deletes
    · rw [isPolicy] at deletes
      exact ⟨deletes, and_elim_left valid, idle, removable.unlocked⟩
  · rintro ⟨deletes, hasId, idle, unlocked⟩
    have target : expirationActionHasValidTarget
        (evaluator.policy.evalInner host obj now newerNoncurrent).action obj.versionId obj.isLatest
        obj.deleteMarker = true := by
      rw [deletes, noncurrent]
      exact and_eq_true_iff.2 ⟨hasId, rfl⟩
    have admitted := admitted_event_passes target idle
    unfold versionEvent
    dsimp only
    rw [admitted, deletes, if_neg (by decide), unlocked, Bool.and_false, if_neg (by decide)]
    exact deletes

end Versions

/-- Whether a rule that applies to the version expires it, after the spared noncurrent versions
before it. -/
def RetentionPassed (host : Host) (evaluator : Evaluator) (objs : List ObjectOpts)
    (now : OffsetDateTime) (i : Nat) (obj : ObjectOpts) : Prop :=
  ∃ rule ∈ evaluator.policy.applicableRules host obj, ∃ expiration successorModTime,
    ExpiresNoncurrent host obj now (sparedBefore objs (evaluator.evalInner host objs now) i) rule
      expiration successorModTime

/-- Numbers of retained noncurrent versions are kept exactly, for versions with a usable time of
modification. The number counts the noncurrent versions spared before this one, not those that
stood before it. -/
theorem retention_counts_kept (host : Host) (evaluator : Evaluator) (lock : ObjectLockConfiguration)
    (valid : evaluator.policy.validate host lock = .ok ()) (objs : List ObjectOpts)
    (now : OffsetDateTime) (i : Nat) (obj : ObjectOpts) (event : Event)
    (isObj : objs[i]? = some obj) (isEvent : (evaluator.evalInner host objs now)[i]? = some event)
    (noncurrent : obj.isLatest = false) :
    (event.action = .deleteVersionAction → evaluator.RetentionPassed host objs now i obj) ∧
      (evaluator.RetentionPassed host objs now i obj → (lifecycleModTime obj).isSome = true →
        obj.versionId.isSome = true → obj.successorModTime.isSome = true →
        evaluator.isObjectLocked host obj = false → isPendingReplication obj = false →
        (∀ j < i, ∀ earlier, (evaluator.evalInner host objs now)[j]? = some earlier →
          earlier.action.deleteAll = false) →
        event.action = .deleteVersionAction) := by
  have intact := fun rule (member : rule ∈ evaluator.policy.rules) =>
    (validate_accepted valid member).retention
  have decided := eval_from_at objs 0 i obj event isObj isEvent
  rw [Nat.zero_add] at decided
  constructor
  · intro deletes
    rcases decided with decided | ⟨isDefault, _⟩
    · rw [decided] at deletes
      obtain ⟨deletes, _⟩ := (version_event_deletion_iff noncurrent).1 deletes
      cases usable : lifecycleModTime obj with
      | none =>
        unfold BucketLifecycleConfiguration.evalInner at deletes
        rw [usable] at deletes
        cases deletes
      | some modTime => exact (noncurrent_deletion_iff intact noncurrent usable).1 deletes
    · rw [isDefault] at deletes
      cases deletes
  · intro passed usable hasId _ unlocked idle vacant
    obtain ⟨modTime, usable⟩ := isSome_iff_exists.1 usable
    rcases decided with decided | ⟨_, j, earlier, ending, isEnding, all⟩
    · rw [decided, version_event_deletion_iff noncurrent]
      exact ⟨(noncurrent_deletion_iff intact noncurrent usable).2 passed, hasId, idle, unlocked⟩
    · cases (vacant j earlier ending isEnding).symm.trans all

/-- Noncurrent versions are deleted after a day. -/
def noncurrentRule : LifecycleRule where
  id := some "history"
  status := "Enabled"
  startsWith := none
  filter := none
  expiration := none
  abortIncompleteMultipartUpload := none
  delMarkerExpiration := none
  noncurrentVersionExpiration := some ⟨none, some 1⟩
  noncurrentVersionTransitions := none
  transitions := none

def noncurrentEvaluator : Evaluator := ⟨⟨[noncurrentRule]⟩, none⟩

def unlockedBucket : ObjectLockConfiguration := ⟨none, none⟩

/-- A noncurrent version that was overwritten long ago. -/
def overwrittenVersion (modTime : OffsetDateTime) : ObjectOpts :=
  { sampleVersion false with
    modTime := some modTime
    successorModTime := some ⟨1700000000000000000, OffsetDateTime.sample_in_range⟩ }

def overwrittenVersions (modTime : OffsetDateTime) : List ObjectOpts :=
  [sampleVersion true, overwrittenVersion modTime]

theorem overwritten_passed (modTime : OffsetDateTime) :
    noncurrentEvaluator.RetentionPassed sampleHost (overwrittenVersions modTime) sampleHost.nowUtc 1
      (overwrittenVersion modTime) := by
  refine ⟨noncurrentRule, mem_singleton.2 rfl, ⟨none, some 1⟩,
    ⟨1700000000000000000, OffsetDateTime.sample_in_range⟩, rfl, .inl rfl, rfl, by decide, ?_⟩
  exact Int.natCast_nonneg _

theorem overwritten_version_deleted :
    ∃ event, (noncurrentEvaluator.evalInner sampleHost
        (overwrittenVersions ⟨1700000000000000000, OffsetDateTime.sample_in_range⟩)
        sampleHost.nowUtc)[1]? = some event ∧ event.action = .deleteVersionAction := by
  refine ⟨_, rfl, (retention_counts_kept sampleHost noncurrentEvaluator unlockedBucket (by rfl)
    (overwrittenVersions ⟨1700000000000000000, OffsetDateTime.sample_in_range⟩) sampleHost.nowUtc 1
    (overwrittenVersion ⟨1700000000000000000, OffsetDateTime.sample_in_range⟩) _ rfl rfl rfl).2
    (overwritten_passed _) rfl rfl rfl (by decide) (by decide) ?_⟩
  intro j first earlier isEarlier
  obtain rfl : j = 0 := Nat.lt_one_iff.1 first
  cases isEarlier
  decide

/-- A version that was modified at the epoch is not looked at. -/
theorem epoch_version_not_deleted :
    noncurrentEvaluator.policy.validate sampleHost unlockedBucket = .ok () ∧
      (overwrittenVersion .unixEpoch).isLatest = false ∧
      noncurrentEvaluator.RetentionPassed sampleHost (overwrittenVersions .unixEpoch) sampleHost.nowUtc
        1 (overwrittenVersion .unixEpoch) ∧
      (overwrittenVersion .unixEpoch).versionId.isSome = true ∧
      (overwrittenVersion .unixEpoch).successorModTime.isSome = true ∧
      noncurrentEvaluator.isObjectLocked sampleHost (overwrittenVersion .unixEpoch) = false ∧
      isPendingReplication (overwrittenVersion .unixEpoch) = false ∧
      (noncurrentEvaluator.evalInner sampleHost (overwrittenVersions .unixEpoch)
        sampleHost.nowUtc).map Event.action = [.noneAction, .noneAction] :=
  ⟨by rfl, rfl, overwritten_passed .unixEpoch, rfl, rfl, by decide, by decide, by decide⟩

end Evaluator

end Rustfs.Lifecycle
