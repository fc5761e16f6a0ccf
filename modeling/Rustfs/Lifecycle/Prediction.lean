import Rustfs.Lifecycle.Urgency
import Rustfs.Lifecycle.Validate
import Rustfs.Lifecycle.Evaluator

/-!
# The announced expiration

`predict_expiration` of `lifecycle/src/core.rs`, the date that is announced for the current version
of an object, and when evaluation deletes that version. The two agree except for expiration dates at
the epoch: they are announced, and evaluation passes them over. The header that carries the
announcement is left out.
-/

namespace Rustfs.Lifecycle

open List Filemeta Library

def predictedDue (host : Host) (modTime : OffsetDateTime) (rule : LifecycleRule) :
    Option OffsetDateTime :=
  match rule.expiration with
  | none => none
  | some expiration =>
    if expiration.expiredObjectDeleteMarker = some true then none
    else
      match expiration.date, expiration.days with
      | some date, _ => some date
      | none, some days => some (expectedExpiryTime host modTime days)
      | none, none => none

/-- The announced event is replaced by an earlier one. -/
def predictFrom (host : Host) (modTime : OffsetDateTime) (event : Option Event) :
    List LifecycleRule → Option Event
  | [] => event
  | rule :: rest =>
    match predictedDue host modTime rule with
    | none => predictFrom host modTime event rest
    | some due =>
      if event.all fun event =>
          unixTimestamp due < unixTimestamp (event.due.getD .unixEpoch) then
        predictFrom host modTime (some (rule.dueEvent .deleteAction due)) rest
      else predictFrom host modTime event rest

def BucketLifecycleConfiguration.predictExpiration (host : Host) (config : BucketLifecycleConfiguration)
    (obj : ObjectOpts) : Event :=
  match lifecycleModTime obj with
  | none => .default
  | some modTime =>
    if obj.deleteMarker || !obj.isLatest then .default
    else
      match config.filterRules host obj with
      | none => .default
      | some rules => (predictFrom host modTime none rules).getD .default

def IlmAction.deletesCurrent (action : IlmAction) : Bool :=
  action = .deleteAction || action = .deleteAllVersionsAction

section Prediction

variable {host : Host} {obj : ObjectOpts} {now modTime : OffsetDateTime} {newerNoncurrent : Nat}
  {rule : LifecycleRule} {rules : List LifecycleRule} {config : BucketLifecycleConfiguration}
  {dues : List OffsetDateTime} {event : Option Event} {due : OffsetDateTime}

def Announces (dues : List OffsetDateTime) : Option Event → Prop
  | none => dues = []
  | some event => event.action = .deleteAction ∧ ∃ due ∈ dues, event.due = some due ∧
      ∀ other ∈ dues, unixTimestamp due ≤ unixTimestamp other

theorem announces_next
    (announces : Announces dues event) (rule : LifecycleRule) (due : OffsetDateTime) :
    Announces (dues ++ [due])
      (if event.all fun event => unixTimestamp due < unixTimestamp (event.due.getD .unixEpoch) then
        some (rule.dueEvent .deleteAction due) else event) := by
  cases event with
  | none =>
    obtain rfl : dues = [] := announces
    refine ⟨rfl, due, by simp, rfl, fun other member => ?_⟩
    rw [nil_append, mem_singleton] at member
    rw [member]
  | some event =>
    obtain ⟨isDelete, earliest, member, isDue, least⟩ := announces
    rw [Option.all_some, isDue, Option.getD_some]
    by_cases earlier : unixTimestamp due < unixTimestamp earliest
    · rw [if_pos (by simpa using earlier)]
      refine ⟨rfl, due, by simp, rfl, fun other isOther => ?_⟩
      rcases mem_append.1 isOther with before | last
      · exact earlier.le.trans (least other before)
      · rw [mem_singleton.1 last]
    · rw [if_neg (by simpa using earlier)]
      refine ⟨isDelete, earliest, by simp [member], isDue, fun other isOther => ?_⟩
      rcases mem_append.1 isOther with before | last
      · exact least other before
      · rw [mem_singleton.1 last]
        exact not_lt.1 earlier

theorem predict_from_announces (announces : Announces dues event) :
    Announces (dues ++ rules.filterMap (predictedDue host modTime))
      (predictFrom host modTime event rules) := by
  induction rules generalizing dues event with
  | nil =>
    rw [filterMap_nil, append_nil]
    exact announces
  | cons rule rules ih =>
    rw [predictFrom]
    cases isDue : predictedDue host modTime rule with
    | none =>
      rw [filterMap_cons_none isDue]
      exact ih announces
    | some due =>
      have next := announces_next announces rule due
      rw [filterMap_cons_some isDue, append_cons]
      dsimp only
      split
      · rename_i earlier
        rw [if_pos earlier] at next
        exact ih next
      · rename_i later
        rw [if_neg later] at next
        exact ih next

theorem predict_expiration_announces (usable : lifecycleModTime obj = some modTime)
    (latest : obj.isLatest = true) (object : obj.deleteMarker = false) :
    ∃ event, Announces ((config.applicableRules host obj).filterMap (predictedDue host modTime)) event ∧
      config.predictExpiration host obj = event.getD .default := by
  refine ⟨predictFrom host modTime none (config.applicableRules host obj),
    predict_from_announces (show Announces [] none from rfl), ?_⟩
  unfold BucketLifecycleConfiguration.predictExpiration BucketLifecycleConfiguration.applicableRules
  rw [usable, latest, object]
  cases config.filterRules host obj with
  | none => rfl
  | some rules => rfl

def evaluatedDue (host : Host) (modTime : OffsetDateTime) (rule : LifecycleRule) :
    Option OffsetDateTime :=
  (predictedDue host modTime rule).filter fun due =>
    (rule.expiration.bind fun expiration => expiration.date).isNone || unixTimestamp due ≠ 0

theorem current_expiration_iff (accepted : rule.Accepted) :
    (∃ event, event ∈ currentExpirationEvents host now modTime rule) ↔
      ∃ due, evaluatedDue host modTime rule = some due ∧ unixTimestamp due ≤ unixTimestamp now := by
  unfold currentExpirationEvents evaluatedDue predictedDue
  cases isExpiration : rule.expiration with
  | none => simp
  | some expiration =>
    have alone := accepted.markerAlone expiration isExpiration
    by_cases marker : expiration.expiredObjectDeleteMarker = some true
    · obtain ⟨noDays, noDate⟩ := alone (by simp [marker])
      simp [marker, noDays, noDate]
    · cases isDate : expiration.date with
      | some date => simp [marker, isDate, Option.filter_eq_some_iff]
      | none =>
        cases isDays : expiration.days with
        | none | some days => simp [marker, isDate, isDays]

theorem deletes_current_first {action : IlmAction} (deletes : action.deletesCurrent = true) :
    ilmActionPriorityRank action = 0 := by
  unfold IlmAction.deletesCurrent at deletes
  simp only [Bool.or_eq_true, decide_eq_true_eq] at deletes
  rcases deletes with rfl | rfl <;> rfl

variable {event : Event}

theorem current_expiration_deletes
    (member : event ∈ currentExpirationEvents host now modTime rule) :
    event.action.deletesCurrent = true := by
  rcases current_expiration_action member with isDelete | isDeleteAll
  · rw [isDelete]
    rfl
  · rw [isDeleteAll]
    rfl

theorem current_first_event (latest : obj.isLatest = true) (object : obj.deleteMarker = false)
    (member : event ∈ (ruleEvents host obj now modTime newerNoncurrent rule).1)
    (first : ilmActionPriorityRank event.action = 0) :
    event ∈ currentExpirationEvents host now modTime rule := by
  rw [rule_events_current latest object] at member
  rcases mem_append.1 member with expires | transitions
  · exact expires
  · rw [current_transition_action transitions] at first
    cases first

theorem current_deletion_iff (accepted : ∀ rule ∈ config.rules, rule.Accepted)
    (usable : lifecycleModTime obj = some modTime) (latest : obj.isLatest = true)
    (object : obj.deleteMarker = false) :
    (config.evalInner host obj now newerNoncurrent).action.deletesCurrent = true ↔
      ∃ due ∈ (config.applicableRules host obj).filterMap (evaluatedDue host modTime),
        unixTimestamp due ≤ unixTimestamp now := by
  have intact := fun rule (member : rule ∈ config.rules) => (accepted rule member).retention
  have goesOn : ∀ rule, (ruleEvents host obj now modTime newerNoncurrent rule).2 = false := by
    intro rule
    rw [rule_events_current latest object]
  have expires := fun rule (member : rule ∈ config.applicableRules host obj) =>
    @current_expiration_iff host now modTime rule (accepted rule (applicable_rules_mem member))
  constructor
  · intro deletes
    have first : ilmActionPriorityRank (config.evalInner host obj now newerNoncurrent).action = 0 :=
      deletes_current_first deletes
    obtain ⟨rule, isRule, member⟩ := eval_inner_first_mem intact goesOn usable first
    obtain ⟨due, isDue, past⟩ :=
      (expires rule isRule).1 ⟨_, current_first_event latest object member first⟩
    exact ⟨due, mem_filterMap.2 ⟨rule, isRule, isDue⟩, past⟩
  · rintro ⟨due, member, past⟩
    obtain ⟨rule, isRule, isDue⟩ := mem_filterMap.1 member
    obtain ⟨event, isEvent⟩ := (expires rule isRule).2 ⟨due, isDue, past⟩
    have first : ilmActionPriorityRank (config.evalInner host obj now newerNoncurrent).action = 0 := by
      refine (eval_inner_first_iff intact goesOn usable).2 ⟨rule, isRule, event, ?_, ?_⟩
      · rw [rule_events_current latest object]
        exact mem_append_left _ isEvent
      · exact deletes_current_first (current_expiration_deletes isEvent)
    obtain ⟨other, _, member⟩ := eval_inner_first_mem intact goesOn usable first
    exact current_expiration_deletes (current_first_event latest object member first)

theorem ilm_day_secs_pos : 0 < ilmDaySecs host := by
  unfold ilmDaySecs
  cases host.ilmDebugDaySecs with
  | none => decide
  | some raw =>
    rw [Option.elim_some, parseIlmDaySecs]
    split
    · split
      · assumption
      · decide
    · decide

theorem parse_positive_i32_pos {text : List Char} {value : Nat}
    (parsed : parsePositiveI32 text = some value) : 0 < value := by
  have kept := (Option.filter_eq_some_iff.1 parsed).2
  simp only [Bool.and_eq_true, decide_eq_true_eq] at kept
  exact kept.2

theorem ilm_process_interval_pos : 0 < ilmProcessIntervalSecs host := by
  unfold ilmProcessIntervalSecs
  cases isValue : (host.ilmProcessTime.or host.ilmProcessTimeDeprecated).bind fun value =>
      parsePositiveI32 value.toList with
  | none => exact ilm_day_secs_pos
  | some value =>
    obtain ⟨text, _, parsed⟩ := Option.bind_eq_some_iff.1 isValue
    exact parse_positive_i32_pos parsed

theorem le_round_up (nanos : Int) {boundary : Int} (positive : 0 < boundary) :
    nanos ≤ roundUp nanos boundary := by
  have below := Int.emod_lt_of_pos nanos positive
  unfold roundUp
  split <;> omega

theorem expected_expiry_after_epoch {days : Int} (after : 0 < modTime.unixTimestampNanos)
    (positive : 1 ≤ days) : 1 ≤ unixTimestamp (expectedExpiryTime host modTime days) := by
  have seconds : 0 < days * ilmDaySecs host :=
    Int.mul_pos (by omega) (Int.natCast_pos.2 ilm_day_secs_pos)
  have added : 1000000000 ≤
      (saturatingAddSeconds modTime (days * ilmDaySecs host)).unixTimestampNanos := by
    unfold saturatingAddSeconds maxUnixNanos
    dsimp only
    apply le_max_of_le_right
    apply le_min
    · decide
    · omega
  have boundary : (0 : Int) < ilmProcessIntervalSecs host * 1000000000 := by
    have interval := @ilm_process_interval_pos host
    omega
  have rounded := le_round_up
    (saturatingAddSeconds modTime (days * ilmDaySecs host)).unixTimestampNanos boundary
  unfold expectedExpiryTime unixTimestamp
  rw [if_neg (by omega)]
  dsimp only
  unfold OffsetDateTime.fromUnixTimestampNanos
  split
  · rw [Option.getD_some]
    dsimp only
    omega
  · rw [Option.getD_none]
    omega

theorem usable_after_epoch (usable : lifecycleModTime obj = some modTime) :
    0 < modTime.unixTimestampNanos := by
  unfold lifecycleModTime at usable
  split at usable
  · cases usable
  · split at usable
    · cases usable
    · rename_i notBefore
      split at usable
      · cases usable
      · rename_i notEpoch
        cases usable
        have notLess : ¬ modTime.unixTimestampNanos < 0 := notBefore
        have notZero : modTime.unixTimestampNanos ≠ 0 := by
          intro zero
          apply notEpoch
          cases modTime
          subst zero
          rfl
        omega

def LifecycleRule.ExpiresAt (rule : LifecycleRule) (date : OffsetDateTime) : Prop :=
  ∃ expiration, rule.expiration = some expiration ∧ expiration.date = some date

theorem predicted_cases (accepted : rule.Accepted)
    (isDue : predictedDue host modTime rule = some due) :
    rule.ExpiresAt due ∨ (rule.expiration.bind fun expiration => expiration.date) = none ∧
      ∃ days, 1 ≤ days ∧ due = expectedExpiryTime host modTime days := by
  unfold predictedDue at isDue
  split at isDue
  · cases isDue
  · rename_i expiration isExpiration
    split at isDue
    · cases isDue
    · split at isDue
      · rename_i isDate
        cases isDue
        exact .inl ⟨expiration, isExpiration, isDate⟩
      · rename_i days isDate isDays
        cases isDue
        refine .inr ⟨?_, days, accepted.daysPositive expiration days isExpiration isDays, rfl⟩
        rw [isExpiration]
        exact isDate
      · cases isDue

theorem predicted_of_date (accepted : rule.Accepted) {date : OffsetDateTime}
    (expires : rule.ExpiresAt date) : predictedDue host modTime rule = some date := by
  obtain ⟨expiration, isExpiration, isDate⟩ := expires
  have notMarker : expiration.expiredObjectDeleteMarker ≠ some true := by
    intro marker
    cases isDate.symm.trans
      (accepted.markerAlone expiration isExpiration (by rw [marker]; rfl)).2
  unfold predictedDue
  rw [isExpiration]
  dsimp only
  rw [if_neg notMarker, isDate]

theorem evaluated_of_predicted (accepted : rule.Accepted)
    (isDue : predictedDue host modTime rule = some due) :
    evaluatedDue host modTime rule = some due ∨ rule.ExpiresAt due ∧ unixTimestamp due = 0 := by
  unfold evaluatedDue
  rw [isDue, Option.filter_some]
  rcases predicted_cases accepted isDue with byDate | ⟨noDate, _⟩
  · by_cases atEpoch : unixTimestamp due = 0
    · exact .inr ⟨byDate, atEpoch⟩
    · rw [if_pos (by simp [atEpoch])]
      exact .inl rfl
  · rw [noDate]
    exact .inl rfl

theorem evaluated_before_epoch (accepted : rule.Accepted)
    (usable : lifecycleModTime obj = some modTime) (isDue : evaluatedDue host modTime rule = some due)
    (early : unixTimestamp due ≤ 0) : rule.ExpiresAt due ∧ unixTimestamp due < 0 := by
  obtain ⟨predicted, kept⟩ := Option.filter_eq_some_iff.1 isDue
  rcases predicted_cases accepted predicted with byDate | ⟨_, days, positive, rfl⟩
  · refine ⟨byDate, ?_⟩
    obtain ⟨expiration, isExpiration, isDate⟩ := byDate
    rw [isExpiration, Option.bind_some, isDate] at kept
    have notEpoch : unixTimestamp due ≠ 0 := by simpa using kept
    omega
  · have late := @expected_expiry_after_epoch host modTime days (usable_after_epoch usable) positive
    omega

/-- An expiration date at the epoch counts unless there is one before it. The announcement takes
the earliest date of all, the evaluation passes over those at the epoch. -/
def EpochDatesHidden (rules : List LifecycleRule) : Prop :=
  (∀ rule ∈ rules, ∀ date, rule.ExpiresAt date → unixTimestamp date ≠ 0) ∨
    ∃ rule ∈ rules, ∃ date, rule.ExpiresAt date ∧ unixTimestamp date < 0

/-- The earliest announced time is the earliest evaluated one, or it is a date at the epoch. -/
theorem earliest_evaluated_iff (accepted : ∀ rule ∈ rules, rule.Accepted)
    (usable : lifecycleModTime obj = some modTime) {earliest : OffsetDateTime}
    (member : earliest ∈ rules.filterMap (predictedDue host modTime))
    (least : ∀ other ∈ rules.filterMap (predictedDue host modTime),
      unixTimestamp earliest ≤ unixTimestamp other) :
    (∀ now, (∃ due ∈ rules.filterMap (evaluatedDue host modTime),
        unixTimestamp due ≤ unixTimestamp now) ↔ unixTimestamp earliest ≤ unixTimestamp now) ↔
      EpochDatesHidden rules := by
  have datePredicted : ∀ rule ∈ rules, ∀ date, rule.ExpiresAt date →
      unixTimestamp earliest ≤ unixTimestamp date := by
    intro rule isRule date expires
    exact least date (mem_filterMap.2 ⟨rule, isRule, predicted_of_date (accepted rule isRule) expires⟩)
  obtain ⟨rule, isRule, isEarliest⟩ := mem_filterMap.1 member
  constructor
  · intro same
    by_contra shown
    unfold EpochDatesHidden at shown
    push Not at shown
    obtain ⟨⟨dated, isDated, date, expires, atEpoch⟩, notBefore⟩ := shown
    have early : unixTimestamp earliest ≤ unixTimestamp .unixEpoch := by
      have := datePredicted dated isDated date expires
      rw [atEpoch] at this
      exact this
    obtain ⟨due, isDue, past⟩ := (same .unixEpoch).2 early
    obtain ⟨other, isOther, evaluated⟩ := mem_filterMap.1 isDue
    obtain ⟨byDate, negative⟩ :=
      evaluated_before_epoch (accepted other isOther) usable evaluated past
    exact absurd negative (not_lt.2 (notBefore other isOther due byDate))
  · intro hidden now
    constructor
    · rintro ⟨due, isDue, past⟩
      obtain ⟨other, isOther, evaluated⟩ := mem_filterMap.1 isDue
      have predicted := (Option.filter_eq_some_iff.1 evaluated).1
      exact (least due (mem_filterMap.2 ⟨other, isOther, predicted⟩)).trans past
    · intro past
      rcases evaluated_of_predicted (accepted rule isRule) isEarliest with evaluated | ⟨byDate, atEpoch⟩
      · exact ⟨earliest, mem_filterMap.2 ⟨rule, isRule, evaluated⟩, past⟩
      · exfalso
        rcases hidden with noneAtEpoch | ⟨dated, isDated, date, expires, negative⟩
        · exact noneAtEpoch rule isRule earliest byDate atEpoch
        · have := datePredicted dated isDated date expires
          omega

/-- The announced expiration of the current version is the real one: it is deleted from the
announced second on, or never if nothing is announced. -/
def BucketLifecycleConfiguration.AnnouncesDeletion (host : Host) (config : BucketLifecycleConfiguration)
    (obj : ObjectOpts) (newerNoncurrent : Nat) : Prop :=
  (∀ due, (config.predictExpiration host obj).action ≠ .noneAction →
    (config.predictExpiration host obj).due = some due →
    ∀ now, (config.evalInner host obj now newerNoncurrent).action.deletesCurrent = true ↔
      unixTimestamp due ≤ unixTimestamp now) ∧
  ((config.predictExpiration host obj).action = .noneAction →
    ∀ now, (config.evalInner host obj now newerNoncurrent).action.deletesCurrent = false)

end Prediction

/-- The announced expiration of an object is the real one unless the earliest expiration date of
its rules is at the epoch. For other versions than current objects with a usable time of
modification nothing is announced. -/
theorem announced_expiration_real_iff (host : Host) (lock : ObjectLockConfiguration)
    (config : BucketLifecycleConfiguration) (valid : config.validate host lock = .ok ())
    (obj : ObjectOpts) (latest : obj.isLatest = true) (object : obj.deleteMarker = false)
    (usable : (lifecycleModTime obj).isSome = true) (newerNoncurrent : Nat) :
    config.AnnouncesDeletion host obj newerNoncurrent ↔
      EpochDatesHidden (config.applicableRules host obj) := by
  obtain ⟨modTime, usable⟩ := Option.isSome_iff_exists.1 usable
  have accepted := fun rule (member : rule ∈ config.rules) => validate_accepted valid member
  have applied := fun rule (member : rule ∈ config.applicableRules host obj) =>
    accepted rule (applicable_rules_mem member)
  have deletes := fun now => @current_deletion_iff host obj now modTime newerNoncurrent config accepted
    usable latest object
  obtain ⟨event, announces, predicted⟩ :=
    @predict_expiration_announces host obj modTime config usable latest object
  unfold BucketLifecycleConfiguration.AnnouncesDeletion
  rw [predicted]
  cases event with
  | none =>
    have unannounced : ∀ rule ∈ config.applicableRules host obj,
        predictedDue host modTime rule = none := filterMap_eq_nil_iff.1 announces
    refine ⟨fun _ => .inl fun rule isRule date expires => ?_, fun _ => ⟨fun due isEvent => ?_, ?_⟩⟩
    · cases (unannounced rule isRule).symm.trans (predicted_of_date (applied rule isRule) expires)
    · exact absurd rfl isEvent
    · intro _ now
      rw [Bool.eq_false_iff, Ne, deletes now]
      rintro ⟨due, isDue, _⟩
      obtain ⟨rule, isRule, evaluated⟩ := mem_filterMap.1 isDue
      cases (unannounced rule isRule).symm.trans (Option.filter_eq_some_iff.1 evaluated).1
  | some event =>
    obtain ⟨isDelete, earliest, member, isDue, least⟩ := announces
    rw [← earliest_evaluated_iff applied usable member least]
    simp only [Option.getD_some, isDelete, isDue, deletes]
    constructor
    · intro real now
      exact real.1 earliest (by decide) rfl now
    · intro real
      refine ⟨fun due _ same => ?_, fun vacant => by cases vacant⟩
      cases same
      exact real

theorem sample_expiration_real :
    Evaluator.sampleEvaluator.policy.AnnouncesDeletion Evaluator.sampleHost
      (Evaluator.sampleVersion true) 0 := by
  refine (announced_expiration_real_iff Evaluator.sampleHost ⟨none, none⟩ _ (by rfl) _ rfl rfl rfl 0).2
    (.inl fun rule member date expires => ?_)
  obtain rfl : rule = Evaluator.sampleRule := mem_singleton.1 member
  obtain ⟨expiration, isExpiration, isDate⟩ := expires
  cases isExpiration
  cases isDate

def epochRule : LifecycleRule :=
  { Evaluator.sampleRule with expiration := some ⟨some .unixEpoch, none, none, none⟩ }

theorem epoch_date_not_real :
    BucketLifecycleConfiguration.validate Evaluator.sampleHost ⟨none, none⟩ ⟨[epochRule]⟩ = .ok () ∧
      (lifecycleModTime (Evaluator.sampleVersion true)).isSome = true ∧
      ¬ BucketLifecycleConfiguration.AnnouncesDeletion Evaluator.sampleHost ⟨[epochRule]⟩
        (Evaluator.sampleVersion true) 0 := by
  refine ⟨by rfl, rfl, fun announces => ?_⟩
  have deletes := announces.1 .unixEpoch (by decide) (by decide) Evaluator.sampleHost.nowUtc
  exact absurd (deletes.2 (by decide)) (by decide)

end Rustfs.Lifecycle
