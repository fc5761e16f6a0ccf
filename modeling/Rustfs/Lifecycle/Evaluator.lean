import Rustfs.Lifecycle.Rules

/-!
# The events of all versions and their locks

`Evaluator::eval_inner` of `lifecycle/src/evaluator.rs`: the event of each version, after the
guards for its target, pending replication and object lock. An action on all versions looks at
every version and ends the evaluation. The argument checks of `eval` are left out.

The last part is about the lock alone: when a legal hold that is set or lifted changes whether a
version may be deleted.
-/

namespace Rustfs.Lifecycle

open List Filemeta Library Utils

structure Evaluator where
  policy : BucketLifecycleConfiguration
  lockRetention : Option ObjectLockConfiguration

def hasPendingVersionPurge (obj : ObjectOpts) : Bool :=
  obj.versionPurgeStatus = .pending || obj.versionPurgeStatus = .failed

def replicationStatusBlocksLifecycle (status : ReplicationStatusType) : Bool :=
  status = .pending || status = .failed

def isPendingReplication (obj : ObjectOpts) : Bool :=
  replicationStatusBlocksLifecycle obj.replicationStatus || hasPendingVersionPurge obj

def lifecycleActionWaitsForReplication : IlmAction → Bool
  | .deleteAction | .deleteVersionAction | .deleteRestoredAction | .deleteRestoredVersionAction
  | .deleteAllVersionsAction | .delMarkerDeleteAllVersionsAction | .transitionAction
  | .transitionVersionAction => true
  | _ => false

def IlmAction.deleteAll (action : IlmAction) : Bool :=
  action = .deleteAllVersionsAction || action = .delMarkerDeleteAllVersionsAction

def IlmAction.deletesOne (action : IlmAction) : Bool :=
  action = .deleteAction || action = .deleteVersionAction

def targetGuard (obj : ObjectOpts) (event : Event) : Event :=
  if expirationActionHasValidTarget event.action obj.versionId obj.isLatest obj.deleteMarker then event
  else .default

def replicationGuard (obj : ObjectOpts) (event : Event) : Event :=
  if lifecycleActionWaitsForReplication event.action && isPendingReplication obj then .default
  else event

namespace Evaluator

variable (host : Host) (evaluator : Evaluator) (objs : List ObjectOpts) (now : OffsetDateTime)

def isObjectLocked (obj : ObjectOpts) : Bool :=
  Lifecycle.isObjectLocked host obj.userDefined obj.deleteMarker evaluator.lockRetention obj.modTime

def objectLockEnabled : Bool :=
  evaluator.lockRetention.any fun config => config.objectLockEnabled = some "Enabled"

/-- The policy's event, unless its target is not valid or its replication is pending. -/
def admittedEvent (newerNoncurrent : Nat) (obj : ObjectOpts) : Event :=
  replicationGuard obj (targetGuard obj (evaluator.policy.evalInner host obj now newerNoncurrent))

/-- The event of a version; after `true` the later versions have none. -/
def versionEvent (newerNoncurrent : Nat) (obj : ObjectOpts) : Event × Bool :=
  let event := evaluator.admittedEvent host now newerNoncurrent obj
  if event.action.deleteAll then
    if evaluator.objectLockEnabled || objs.any (evaluator.isObjectLocked host) ||
        objs.any isPendingReplication then (.default, false)
    else (event, true)
  else if event.action.deletesOne && evaluator.isObjectLocked host obj then
    ((obj.restoredCopyExpiry now).getD .default, false)
  else (event, false)

def spared (newerNoncurrent : Nat) (obj : ObjectOpts) (event : Event) : Nat :=
  if !obj.isLatest && event.action ≠ .deleteVersionAction then newerNoncurrent + 1
  else newerNoncurrent

def evalFrom (newerNoncurrent : Nat) : List ObjectOpts → List Event
  | [] => []
  | obj :: rest =>
    let result := evaluator.versionEvent host objs now newerNoncurrent obj
    if result.2 then result.1 :: rest.map fun _ => Event.default
    else result.1 :: evalFrom (spared newerNoncurrent obj result.1) rest

def evalInner : List Event := evaluator.evalFrom host objs now 0 objs

structure Removable (obj : ObjectOpts) : Prop where
  unlocked : evaluator.isObjectLocked host obj = false
  notPending : obj.replicationStatus ≠ .pending
  notFailed : obj.replicationStatus ≠ .failed
  notPurged : hasPendingVersionPurge obj = false

/-- The event of a version and those after it take nothing away that is protected. -/
structure Protects (obj : ObjectOpts) (event : Event) (later : List Event) : Prop where
  one : event.action.deletesOne = true → evaluator.Removable host obj
  all : event.action.deleteAll = true → evaluator.objectLockEnabled = false ∧
    (∀ other ∈ objs, evaluator.Removable host other) ∧ obj.isLatest = true ∧
    ∀ next ∈ later, next.action = .noneAction

section Guards

variable {host evaluator objs now} {obj : ObjectOpts} {event : Event} {action : IlmAction}

omit host evaluator objs in
theorem restored_expires_one (expires : obj.restoredCopyExpiry now = some event) :
    event.action.deletesOne = false ∧ event.action.deleteAll = false := by
  unfold ObjectOpts.restoredCopyExpiry at expires
  split at expires
  · cases expires
  · split at expires
    · cases expires
    · dsimp only at expires
      cases isLatest : obj.isLatest with
      | true =>
        rw [isLatest, if_pos rfl] at expires
        split at expires
        · cases expires
          exact ⟨rfl, rfl⟩
        · cases expires
      | false =>
        rw [isLatest, if_neg Bool.false_ne_true] at expires
        split at expires
        · cases expires
          exact ⟨rfl, rfl⟩
        · cases expires

theorem target_guard_valid (obj : ObjectOpts) (event : Event) :
    expirationActionHasValidTarget (targetGuard obj event).action obj.versionId obj.isLatest
      obj.deleteMarker = true := by
  unfold targetGuard
  split
  · assumption
  · rfl

theorem replication_guard_cases (obj : ObjectOpts) (event : Event) :
    replicationGuard obj event = .default ∨
      replicationGuard obj event = event ∧
        (lifecycleActionWaitsForReplication event.action = true → isPendingReplication obj = false) := by
  unfold replicationGuard
  split
  · exact .inl rfl
  · rename_i passes
    refine .inr ⟨rfl, fun waits => ?_⟩
    rw [waits, Bool.true_and] at passes
    exact Bool.eq_false_iff.2 passes

theorem admitted_deletion (newerNoncurrent : Nat) (obj : ObjectOpts)
    (deletes : (evaluator.admittedEvent host now newerNoncurrent obj).action.deletesOne = true ∨
      (evaluator.admittedEvent host now newerNoncurrent obj).action.deleteAll = true) :
    isPendingReplication obj = false ∧
      expirationActionHasValidTarget (evaluator.admittedEvent host now newerNoncurrent obj).action
        obj.versionId obj.isLatest obj.deleteMarker = true := by
  unfold admittedEvent at deletes ⊢
  have valid := target_guard_valid obj (evaluator.policy.evalInner host obj now newerNoncurrent)
  rcases replication_guard_cases obj
    (targetGuard obj (evaluator.policy.evalInner host obj now newerNoncurrent)) with none | passes
  · rw [none] at deletes
    rcases deletes with one | all
    · cases one
    · cases all
  · rw [passes.1] at deletes ⊢
    refine ⟨passes.2 ?_, valid⟩
    generalize (targetGuard obj _).action = action at deletes
    cases action <;> simp_all [IlmAction.deletesOne, IlmAction.deleteAll,
      lifecycleActionWaitsForReplication]

theorem delete_all_target_latest {versionId : Option Uuid}
    {isLatest deleteMarker : Bool} (all : action.deleteAll = true)
    (valid : expirationActionHasValidTarget action versionId isLatest deleteMarker = true) :
    isLatest = true := by
  unfold IlmAction.deleteAll at all
  rw [Bool.or_eq_true, decide_eq_true_eq, decide_eq_true_eq] at all
  rcases all with rfl | rfl
  all_goals exact Bool.and_elim_left valid

theorem removable_of (unlocked : evaluator.isObjectLocked host obj = false)
    (idle : isPendingReplication obj = false) : evaluator.Removable host obj := by
  unfold isPendingReplication replicationStatusBlocksLifecycle at idle
  simp only [Bool.or_eq_false_iff, decide_eq_false_iff_not] at idle
  exact ⟨unlocked, idle.1.1, idle.1.2, idle.2⟩

theorem harmless_protects (obj : ObjectOpts) (later : List Event)
    (notOne : event.action.deletesOne = false) (notAll : event.action.deleteAll = false) :
    evaluator.Protects host objs obj event later where
  one := by
    intro one
    cases notOne.symm.trans one
  all := by
    intro all
    cases notAll.symm.trans all

theorem not_one_of_all (all : action.deleteAll = true) : action.deletesOne = false := by
  cases action <;> simp_all [IlmAction.deleteAll, IlmAction.deletesOne]

/-- The event of one version, in front of events without an action if the version ends the
evaluation. -/
theorem version_event_protects (newerNoncurrent : Nat) (obj : ObjectOpts) (later : List Event)
    (ended : (evaluator.versionEvent host objs now newerNoncurrent obj).2 = true →
      ∀ next ∈ later, next.action = .noneAction) :
    evaluator.Protects host objs obj
      (evaluator.versionEvent host objs now newerNoncurrent obj).1 later := by
  have admitted := @admitted_deletion host evaluator now newerNoncurrent obj
  unfold versionEvent at ended ⊢
  dsimp only at ended ⊢
  split
  · rename_i all
    split
    · exact harmless_protects obj later rfl rfl
    · rename_i free
      rw [if_pos all, if_neg free] at ended
      simp only [Bool.or_eq_true, any_eq_true, not_or, not_exists, not_and, Bool.not_eq_true]
        at free
      refine ⟨fun one => ?_, fun _ => ⟨free.1.1, ?_, ?_, ended rfl⟩⟩
      · rw [not_one_of_all all] at one
        cases one
      · exact fun other member => removable_of (free.1.2 other member) (free.2 other member)
      · exact delete_all_target_latest all (admitted (.inr all)).2
  · rename_i notAll
    split
    · cases expires : obj.restoredCopyExpiry now with
      | none => exact harmless_protects obj later rfl rfl
      | some event =>
        obtain ⟨notOne, notAll⟩ := restored_expires_one expires
        exact harmless_protects obj later notOne notAll
    · rename_i unlocked
      refine ⟨fun one => ?_, fun all => absurd all notAll⟩
      rw [one, Bool.true_and] at unlocked
      exact removable_of (Bool.eq_false_iff.2 unlocked) (admitted (.inl one)).1

theorem eval_from_length (newerNoncurrent : Nat) (rest : List ObjectOpts) :
    (evaluator.evalFrom host objs now newerNoncurrent rest).length = rest.length := by
  induction rest generalizing newerNoncurrent with
  | nil => rfl
  | cons obj rest ih =>
    unfold evalFrom
    dsimp only
    split
    · rw [length_cons, length_map, length_cons]
    · rw [length_cons, ih, length_cons]

theorem eval_from_protects (rest : List ObjectOpts) : ∀ (newerNoncurrent i : Nat) (obj : ObjectOpts)
    (event : Event), rest[i]? = some obj →
      (evaluator.evalFrom host objs now newerNoncurrent rest)[i]? = some event →
      evaluator.Protects host objs obj event
        ((evaluator.evalFrom host objs now newerNoncurrent rest).drop (i + 1)) := by
  induction rest with
  | nil =>
    intro newerNoncurrent i obj event isObj
    cases isObj
  | cons first rest ih =>
    intro newerNoncurrent i obj event isObj isEvent
    rw [evalFrom] at isEvent ⊢
    have protects := @version_event_protects host evaluator objs now newerNoncurrent first
    split
    · rename_i ended
      rw [if_pos ended] at isEvent
      cases i with
      | zero =>
        cases isObj
        cases isEvent
        apply protects
        intro _ next member
        obtain ⟨_, _, rfl⟩ := mem_map.1 member
        rfl
      | succ i =>
        rw [getElem?_cons_succ, getElem?_map, Option.map_eq_some_iff] at isEvent
        obtain ⟨_, _, rfl⟩ := isEvent
        exact harmless_protects obj _ rfl rfl
    · rename_i goesOn
      rw [if_neg goesOn] at isEvent
      cases i with
      | zero =>
        cases isObj
        cases isEvent
        apply protects
        exact fun ended => absurd ended goesOn
      | succ i => exact ih _ i obj event isObj isEvent

end Guards

/-- Lifecycle takes away no version that is locked or waits for replication or a purge, and an
action on all versions is the last one, for the latest version of an object without any
protected version. -/
theorem protected_versions_stay (host : Host) (evaluator : Evaluator) (objs : List ObjectOpts)
    (now : OffsetDateTime) :
    (evaluator.evalInner host objs now).length = objs.length ∧
      ∀ (i : Nat) (obj : ObjectOpts) (event : Event), objs[i]? = some obj →
        (evaluator.evalInner host objs now)[i]? = some event →
        evaluator.Protects host objs obj event ((evaluator.evalInner host objs now).drop (i + 1)) :=
  ⟨eval_from_length 0 objs, fun i obj event isObj isEvent =>
    eval_from_protects objs 0 i obj event isObj isEvent⟩

/-- A host whose day has 86400 seconds, for versions without tags and lock metadata. -/
def sampleHost : Host where
  nowUtc := saturatingAddSeconds ⟨1700000000000000000, OffsetDateTime.sample_in_range⟩ 1000000
  ilmProcessTime := none
  ilmProcessTimeDeprecated := none
  ilmDebugDaySecs := none
  formUrlencodedParse _ := []
  parseIso8601 _ := none
  year _ := 2023
  replaceYear _ _ := none
  replaceDay _ _ := none
  isMidnight date := date.unixTimestampNanos % 86400000000000 = 0

/-- Objects expire with all their versions after a day. -/
def sampleRule : LifecycleRule where
  id := some "expire"
  status := "Enabled"
  startsWith := none
  filter := none
  expiration := some ⟨none, some 1, some true, none⟩
  abortIncompleteMultipartUpload := none
  delMarkerExpiration := none
  noncurrentVersionExpiration := none
  noncurrentVersionTransitions := none
  transitions := none

def sampleVersion (isLatest : Bool) : ObjectOpts where
  name := "logs/a"
  userTags := ""
  modTime := some ⟨1700000000000000000, OffsetDateTime.sample_in_range⟩
  size := 10
  versionId := some 7
  isLatest := isLatest
  deleteMarker := false
  numVersions := 2
  successorModTime := none
  transitionStatus := ""
  restoreExpires := none
  userDefined := .empty
  versionPurgeStatus := .empty
  replicationStatus := .completed

def sampleEvaluator : Evaluator := ⟨⟨[sampleRule]⟩, none⟩

theorem sample_versions_stay :
    ((sampleEvaluator.evalInner sampleHost [sampleVersion true, sampleVersion false]
      sampleHost.nowUtc).map Event.action =
        [IlmAction.deleteAllVersionsAction, IlmAction.noneAction]) ∧
      sampleEvaluator.Removable sampleHost (sampleVersion false) := by
  have events : (sampleEvaluator.evalInner sampleHost [sampleVersion true, sampleVersion false]
      sampleHost.nowUtc).map Event.action =
        [IlmAction.deleteAllVersionsAction, IlmAction.noneAction] := by decide
  refine ⟨events, ?_⟩
  obtain ⟨event, later, isEvents, isAll, _⟩ := map_eq_cons_iff.1 events
  have isEvent : (sampleEvaluator.evalInner sampleHost [sampleVersion true, sampleVersion false]
      sampleHost.nowUtc)[0]? = some event := by
    rw [isEvents]
    rfl
  have protects := (protected_versions_stay sampleHost sampleEvaluator
    [sampleVersion true, sampleVersion false] sampleHost.nowUtc).2 0 (sampleVersion true) event rfl
    isEvent
  have all : event.action.deleteAll = true := by
    rw [isAll]
    rfl
  exact (protects.all all).2.1 (sampleVersion false) (mem_cons_of_mem _ mem_cons_self)

end Evaluator

variable {value : String}

theorem off_is_not_on (isOff : eqIgnoreAsciiCase value "OFF" = true) :
    eqIgnoreAsciiCase value "ON" = false := by
  unfold eqIgnoreAsciiCase at isOff ⊢
  rw [decide_eq_true_eq] at isOff
  rw [isOff]
  decide

/-- The bucket's default retention locks a version that has no lock metadata of its own. What
cannot be read counts as a lock: an unknown mode, no time of modification, neither days nor
years. -/
def DefaultRetentionLocks (host : Host) (config : Option ObjectLockConfiguration)
    (modTime : Option OffsetDateTime) : Prop :=
  ∃ retention, (config.bind fun config => config.rule.bind fun rule => rule) = some retention ∧
    ∀ mode ∈ retention.mode, isRetentionMode mode = true → ∀ time ∈ modTime,
      ∀ retainUntil ∈ defaultRetentionUntil host time retention,
        unixTimestamp host.nowUtc < unixTimestamp retainUntil

section LegalHold

variable {host : Host} {userDefined : KeyMap String String} {config : Option ObjectLockConfiguration}
  {modTime : Option OffsetDateTime}

theorem is_object_locked_default (noHold : userDefined.get objectLockLegalHold = none)
    (noMode : userDefined.get objectLockMode = none)
    (noDate : userDefined.get objectLockRetainUntilDate = none) :
    isObjectLocked host userDefined false config modTime = true ↔
      DefaultRetentionLocks host config modTime := by
  unfold isObjectLocked isObjectLockedByMetadata hasExplicitLockMetadata DefaultRetentionLocks
  rw [noHold, noMode, noDate]
  cases (config.bind fun config => config.rule.bind fun rule => rule) with
  | none => simp
  | some retention =>
    cases isMode : retention.mode with
    | none => simp [isMode]
    | some mode =>
      cases known : isRetentionMode mode with
      | false => simp [isMode, known]
      | true =>
        cases modTime with
        | none => simp [isMode, known]
        | some time =>
          cases isUntil : defaultRetentionUntil host time retention with
          | none => simp [isMode, known, isUntil]
          | some retainUntil => simp [isMode, known, isUntil]

theorem get_held (userDefined : KeyMap String String) (value : String) :
    (userDefined.insert objectLockLegalHold value).get objectLockLegalHold = some value ∧
      (userDefined.insert objectLockLegalHold value).get objectLockMode = userDefined.get objectLockMode ∧
      (userDefined.insert objectLockLegalHold value).get objectLockRetainUntilDate =
        userDefined.get objectLockRetainUntilDate := by
  rw [KeyMap.get_insert, KeyMap.get_insert, KeyMap.get_insert]
  exact ⟨if_pos rfl, if_neg (by decide), if_neg (by decide)⟩

/-- Metadata of the version's own without a legal hold: a hold that is off is well formed, and
changes nothing. -/
theorem locked_without_hold (noHold : userDefined.get objectLockLegalHold = none)
    (isOff : eqIgnoreAsciiCase value "OFF" = true)
    (explicit : (userDefined.get objectLockMode).isSome = true ∨
      (userDefined.get objectLockRetainUntilDate).isSome = true) :
    isObjectLocked host (userDefined.insert objectLockLegalHold value) false config modTime =
      isObjectLocked host userDefined false config modTime := by
  have present : ((userDefined.get objectLockMode).isSome ||
      (userDefined.get objectLockRetainUntilDate).isSome) = true := by
    rw [Bool.or_eq_true]
    exact explicit
  unfold isObjectLocked isObjectLockedByMetadata hasExplicitLockMetadata explicitLockMetadataIsWellFormed
  obtain ⟨isHold, isMode, isDate⟩ := get_held userDefined value
  rw [isHold, isMode, isDate, noHold, Option.isSome_some, Option.isSome_none, Bool.true_or, Bool.true_or,
    Bool.false_or, present]
  simp [off_is_not_on isOff, isOff]

theorem hold_on_locks (isOn : eqIgnoreAsciiCase value "ON" = true) :
    isObjectLocked host (userDefined.insert objectLockLegalHold value) false config modTime = true := by
  unfold isObjectLocked isObjectLockedByMetadata
  simp [KeyMap.get_insert, isOn]

theorem hold_off_alone (noMode : userDefined.get objectLockMode = none)
    (noDate : userDefined.get objectLockRetainUntilDate = none)
    (isOff : eqIgnoreAsciiCase value "OFF" = true) :
    isObjectLocked host (userDefined.insert objectLockLegalHold value) false config modTime = false := by
  unfold isObjectLocked isObjectLockedByMetadata hasExplicitLockMetadata explicitLockMetadataIsWellFormed
  obtain ⟨isHold, isMode, isDate⟩ := get_held userDefined value
  rw [isHold, isMode, isDate, noMode, noDate]
  simp [off_is_not_on isOff, isOff]

end LegalHold

/-- Turning a legal hold off is neutral unless the version was locked by the default retention
alone; turning it on always locks. The spelling of the two words in upper or lower case does not
matter. -/
theorem legal_hold_neutral_iff (host : Host) (userDefined : KeyMap String String)
    (config : Option ObjectLockConfiguration) (modTime : Option OffsetDateTime)
    (noHold : userDefined.get objectLockLegalHold = none) (off on : String)
    (isOff : eqIgnoreAsciiCase off "OFF" = true) (isOn : eqIgnoreAsciiCase on "ON" = true) :
    (isObjectLocked host (userDefined.insert objectLockLegalHold off) false config modTime =
        isObjectLocked host userDefined false config modTime ∧
      isObjectLocked host (userDefined.insert objectLockLegalHold on) false config modTime = true) ↔
      ((userDefined.get objectLockMode).isSome = true ∨
        (userDefined.get objectLockRetainUntilDate).isSome = true) ∨
      ¬DefaultRetentionLocks host config modTime := by
  rw [hold_on_locks isOn, and_iff_left rfl]
  by_cases explicit : (userDefined.get objectLockMode).isSome = true ∨
      (userDefined.get objectLockRetainUntilDate).isSome = true
  · exact ⟨fun _ => .inl explicit, fun _ => locked_without_hold noHold isOff explicit⟩
  · simp only [not_or, Option.not_isSome_iff_eq_none] at explicit
    rw [hold_off_alone explicit.1 explicit.2 isOff,
      ← is_object_locked_default noHold explicit.1 explicit.2, explicit.1, explicit.2]
    cases isObjectLocked host userDefined false config modTime <;> decide

/-- Thirty days of retention for a version of the current time. -/
def defaultLock : ObjectLockConfiguration :=
  ⟨some "Enabled", some (some ⟨some "GOVERNANCE", some 30, none⟩)⟩

/-- The host reads the retention date of the version, a day from its own time. -/
def retainingHost : Host :=
  { Evaluator.sampleHost with
    parseIso8601 := fun text =>
      if text = "2023-11-27T12:00:00Z" then
        some (saturatingAddSeconds Evaluator.sampleHost.nowUtc 86400)
      else none }

def retainedVersion : KeyMap String String :=
  (KeyMap.empty.insert objectLockMode "GOVERNANCE").insert objectLockRetainUntilDate
    "2023-11-27T12:00:00Z"

/-- Under its own retention the version stays locked, whatever becomes of the hold. -/
theorem retained_hold_neutral :
    isObjectLocked retainingHost retainedVersion false none none = true ∧
      isObjectLocked retainingHost (retainedVersion.insert objectLockLegalHold "off") false none none =
        isObjectLocked retainingHost retainedVersion false none none ∧
      isObjectLocked retainingHost (retainedVersion.insert objectLockLegalHold "On") false none none =
        true :=
  ⟨by decide, (legal_hold_neutral_iff retainingHost retainedVersion none none rfl "off" "On"
    (by decide) (by decide)).2 (.inl (.inl (by decide)))⟩

theorem hold_off_drops_default_retention :
    isObjectLocked Evaluator.sampleHost KeyMap.empty false (some defaultLock)
        (some Evaluator.sampleHost.nowUtc) = true ∧
      isObjectLocked Evaluator.sampleHost (KeyMap.empty.insert objectLockLegalHold "OFF") false
        (some defaultLock) (some Evaluator.sampleHost.nowUtc) = false := by
  decide

end Rustfs.Lifecycle
