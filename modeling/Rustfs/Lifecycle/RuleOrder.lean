import Rustfs.Lifecycle.Urgency
import Rustfs.Lifecycle.Validate
import Rustfs.Lifecycle.Evaluator
import Mathlib.Data.List.Permutation

/-!
# The order of the rules, and which prefixes they reach

The event of a version comes from the first of the rules whose events are most urgent, and a rule
for expired delete markers ends the scan. The order of the rules therefore counts exactly where
two rules that can decide ask for different actions or times.

`has_active_rules` of `lifecycle/src/core.rs` says beforehand whether any rule can act under a
prefix. Its comparison of a date with the clock does not change its answer and is left out.
-/

namespace Rustfs.Lifecycle

open List Option Bool Filemeta Library

section Order

variable (host : Host) (obj : ObjectOpts) (now modTime : OffsetDateTime) (newerNoncurrent : Nat)
  {others : List LifecycleRule} {config : BucketLifecycleConfiguration}

/-- What a rule asks for by itself: the most urgent of its events. -/
def ruleChoice (rule : LifecycleRule) : Option Event :=
  if (ruleEvents host obj now modTime newerNoncurrent rule).1.isEmpty then none
  else some (mostUrgent (ruleEvents host obj now modTime newerNoncurrent rule).1)

def removesMarker (obj : ObjectOpts) (rule : LifecycleRule) : Bool :=
  obj.isLatest && obj.expiredObjectDeletemarker &&
    rule.expiration.any fun expiration => expiration.expiredObjectDeleteMarker = some true

/-- The choice of a rule can become the event of the version: a rule that ends the scan may
follow it, or it is as urgent as the choice of any rule and more urgent than the expiry of a
restored copy. -/
structure Decides (rules : List LifecycleRule) (rule : LifecycleRule) (event : Event) : Prop where
  applies : rule ∈ rules
  chosen : ruleChoice host obj now modTime newerNoncurrent rule = some event
  leads : (∃ last ∈ rules, removesMarker obj last = true) ∨
    (∀ other ∈ rules, ∀ choice, ruleChoice host obj now modTime newerNoncurrent other = some choice →
      choice.before event = false) ∧
    ∀ restored, obj.restoredCopyExpiry now = some restored → event.before restored = true

/-- The rules that can decide ask for the same. -/
def BucketLifecycleConfiguration.RulesAgree (config : BucketLifecycleConfiguration) : Prop :=
  ∀ modTime, lifecycleModTime obj = some modTime → ∀ rule event other choice,
    Decides host obj now modTime newerNoncurrent (config.applicableRules host obj) rule event →
    Decides host obj now modTime newerNoncurrent (config.applicableRules host obj) other choice →
    event.action = choice.action ∧ event.due = choice.due

variable {host obj now modTime newerNoncurrent} {rule : LifecycleRule} {rules : List LifecycleRule}
  {event : Event}

theorem rule_choice_eq : ruleChoice host obj now modTime newerNoncurrent rule = some event ↔
    FirstLeast Event.urgency (ruleEvents host obj now modTime newerNoncurrent rule).1 event := by
  unfold ruleChoice
  cases (ruleEvents host obj now modTime newerNoncurrent rule).1 with
  | nil =>
    constructor
    · intro chosen
      cases chosen
    · intro least
      cases least.mem
  | cons first rest =>
    rw [isEmpty_cons, if_neg Bool.false_ne_true, Option.some.injEq]
    constructor
    · rintro rfl
      exact most_urgent_first_least first rest
    · exact most_urgent_eq

theorem before_eq_false (left right : Event) :
    left.before right = false ↔ right.urgency ≤ left.urgency := by
  rw [← not_lt, ← event_before_iff, not_eq_true]

theorem rule_choice_of_mem
    (member : event ∈ (ruleEvents host obj now modTime newerNoncurrent rule).1) :
    ∃ choice, ruleChoice host obj now modTime newerNoncurrent rule = some choice ∧
      choice.urgency ≤ event.urgency :=
  ⟨_, rule_choice_eq.2 (most_urgent_of_mem member), (most_urgent_of_mem member).le member⟩

theorem marker_event_eq (accepted : rule.Accepted) :
    expiredMarkerEvent host obj now rule =
      if removesMarker obj rule then some (rule.dueEvent .deleteVersionAction now) else none := by
  unfold expiredMarkerEvent removesMarker
  cases marker : obj.isLatest && obj.expiredObjectDeletemarker with
  | false => simp
  | true =>
    cases isExpiration : rule.expiration with
    | none => simp
    | some expiration =>
      by_cases removes : expiration.expiredObjectDeleteMarker = some true
      · obtain ⟨noDays, noDate⟩ := accepted.markerAlone expiration isExpiration (by simp [removes])
        have noDue : expiration.nextDue host obj = none := by
          unfold LifecycleExpiration.nextDue
          rw [noDays, noDate]
          split <;> rfl
        simp [Option.filter, removes, noDue]
      · simp [removes]

theorem rule_ends_iff (accepted : rule.Accepted) :
    (ruleEvents host obj now modTime newerNoncurrent rule).2 = removesMarker obj rule := by
  unfold ruleEvents
  rw [marker_event_eq accepted]
  cases removesMarker obj rule with
  | true => rfl
  | false => rfl

theorem removes_marker_latest (removes : removesMarker obj rule = true) :
    obj.isLatest = true ∧ obj.deleteMarker = true := by
  unfold removesMarker ObjectOpts.expiredObjectDeletemarker at removes
  simp only [and_eq_true] at removes
  exact ⟨removes.1.1, removes.1.2.1.1⟩

theorem removes_marker_not_restored (removes : removesMarker obj rule = true) :
    obj.restoredCopyExpiry now = none := by
  cases expires : obj.restoredCopyExpiry now with
  | none => rfl
  | some restored =>
    have object := (restored_rank expires).1
    rw [(removes_marker_latest removes).2] at object
    cases object

theorem due_event_urgency {action : IlmAction} {due : OffsetDateTime}
    (first : ilmActionPriorityRank action = 0) (past : unixTimestamp due ≤ unixTimestamp now) :
    (rule.dueEvent action due).urgency ≤ toLex (0, unixTimestamp now) := by
  unfold Event.urgency
  rw [Prod.Lex.toLex_le_toLex]
  exact .inr ⟨first, past⟩

theorem marker_events_over (latest : obj.isLatest = true) (marker : obj.deleteMarker = true)
    (accepted : rule.Accepted)
    (member : event ∈ (ruleEvents host obj now modTime newerNoncurrent rule).1) :
    event.urgency ≤ toLex (0, unixTimestamp now) := by
  unfold ruleEvents at member
  rw [marker_event_eq accepted] at member
  cases removes : removesMarker obj rule with
  | true =>
    rw [removes, if_pos rfl] at member
    rw [mem_singleton.1 member]
    exact due_event_urgency rfl le_rfl
  | false =>
    rw [removes, if_neg Bool.false_ne_true] at member
    rcases mem_append.1 member with byDays | byMarker
    · unfold expiredMarkerDaysEvents at byDays
      split at byDays
      · split at byDays
        · cases byDays
        · dsimp only at byDays
          split at byDays
          · rename_i past
            rw [mem_singleton.1 byDays]
            exact due_event_urgency rfl past
          · cases byDays
      · cases byDays
    · unfold delMarkerEvents at byMarker
      rw [latest, marker, Bool.and_self, if_pos rfl] at byMarker
      cases isDays : (rule.delMarkerExpiration.bind fun days => days).filter fun days => 0 < days with
      | none =>
        rw [isDays, map_none, getD_none, version_events_marker latest marker]
          at byMarker
        cases byMarker
      | some days =>
        rw [isDays, map_some, getD_some] at byMarker
        dsimp only at byMarker
        split at byMarker
        · rename_i past
          rw [mem_singleton.1 byMarker]
          exact due_event_urgency rfl past
        · cases byMarker

theorem rules_events_choice (accepted : ∀ rule ∈ rules, rule.Accepted)
    (least : FirstLeast Event.urgency (rulesEvents host obj now modTime newerNoncurrent rules) event) :
    ∃ rule ∈ rules, ruleChoice host obj now modTime newerNoncurrent rule = some event := by
  induction rules with
  | nil => cases least.mem
  | cons rule rules ih =>
    rw [rulesEvents, if_neg (by simp [(accepted rule mem_cons_self).retention])] at least
    split at least
    · exact ⟨rule, mem_cons_self, rule_choice_eq.2 least⟩
    · rcases least.append_cases with first | ⟨later, _⟩
      · exact ⟨rule, mem_cons_self, rule_choice_eq.2 first⟩
      · obtain ⟨other, member, chosen⟩ :=
          ih (fun other member => accepted other (mem_cons_of_mem _ member)) later
        exact ⟨other, mem_cons_of_mem _ member, chosen⟩

theorem rules_events_mem (member : event ∈ rulesEvents host obj now modTime newerNoncurrent rules) :
    ∃ rule ∈ rules, event ∈ (ruleEvents host obj now modTime newerNoncurrent rule).1 := by
  induction rules with
  | nil => cases member
  | cons rule rules ih =>
    have later : event ∈ rulesEvents host obj now modTime newerNoncurrent rules →
        ∃ other ∈ rule :: rules,
          event ∈ (ruleEvents host obj now modTime newerNoncurrent other).1 := by
      intro behind
      obtain ⟨other, isOther, isEvent⟩ := ih behind
      exact ⟨other, mem_cons_of_mem _ isOther, isEvent⟩
    rw [rulesEvents] at member
    split at member
    · exact later member
    · split at member
      · exact ⟨rule, mem_cons_self, member⟩
      · rcases mem_append.1 member with here | behind
        · exact ⟨rule, mem_cons_self, here⟩
        · exact later behind

theorem rules_events_none (accepted : ∀ rule ∈ rules, rule.Accepted)
    (nothing : rulesEvents host obj now modTime newerNoncurrent rules = []) :
    ∀ rule ∈ rules, ruleChoice host obj now modTime newerNoncurrent rule = none := by
  induction rules with
  | nil =>
    intro rule member
    cases member
  | cons rule rules ih =>
    rw [rulesEvents, if_neg (by simp [(accepted rule mem_cons_self).retention])] at nothing
    split at nothing
    · rename_i ends
      exfalso
      unfold ruleEvents at ends nothing
      cases isEvent : expiredMarkerEvent host obj now rule with
      | none =>
        rw [isEvent] at ends
        cases ends
      | some event =>
        rw [isEvent] at nothing
        cases nothing
    · rw [append_eq_nil_iff] at nothing
      intro other member
      rcases mem_cons.1 member with rfl | member
      · simp [ruleChoice, nothing.1]
      · exact ih (fun other member => accepted other (mem_cons_of_mem _ member)) nothing.2
          other member

theorem rules_events_unended (accepted : ∀ rule ∈ rules, rule.Accepted)
    (unended : ∀ rule ∈ rules, removesMarker obj rule = false) :
    rulesEvents host obj now modTime newerNoncurrent rules =
      rules.flatMap fun rule => (ruleEvents host obj now modTime newerNoncurrent rule).1 :=
  rules_events_eq (fun rule member => (accepted rule member).retention) fun rule member => by
    rw [rule_ends_iff (accepted rule member), unended rule member]

theorem choice_mem_events (accepted : ∀ rule ∈ rules, rule.Accepted)
    (unended : ∀ rule ∈ rules, removesMarker obj rule = false) (member : rule ∈ rules)
    (chosen : ruleChoice host obj now modTime newerNoncurrent rule = some event) :
    event ∈ rulesEvents host obj now modTime newerNoncurrent rules := by
  rw [rules_events_unended accepted unended]
  exact mem_flatMap.2 ⟨rule, member, (rule_choice_eq.1 chosen).mem⟩

theorem least_decides (accepted : ∀ rule ∈ rules, rule.Accepted)
    (least : FirstLeast Event.urgency (rulesEvents host obj now modTime newerNoncurrent rules) event)
    (early : ∀ restored, obj.restoredCopyExpiry now = some restored →
      event.urgency < restored.urgency) :
    ∃ rule, Decides host obj now modTime newerNoncurrent rules rule event := by
  obtain ⟨rule, member, chosen⟩ := rules_events_choice accepted least
  refine ⟨rule, member, chosen, ?_⟩
  by_cases ended : ∃ last ∈ rules, removesMarker obj last = true
  · exact .inl ended
  · have unended : ∀ rule ∈ rules, removesMarker obj rule = false := fun rule member =>
      eq_false_iff.2 fun removes => ended ⟨rule, member, removes⟩
    refine .inr ⟨fun other isOther choice isChoice => ?_, fun restored expires => ?_⟩
    · rw [before_eq_false]
      exact least.le (choice_mem_events accepted unended isOther isChoice)
    · rw [event_before_iff]
      exact early restored expires

/-- Where the event of a version comes from: the expiry of a restored copy, a rule that can
decide, or nowhere. -/
inductive OrderOutcome (host : Host) (obj : ObjectOpts) (now modTime : OffsetDateTime)
    (newerNoncurrent : Nat) (rules : List LifecycleRule) (event : Event) : Prop
  | restored (expires : obj.restoredCopyExpiry now = some event)
      (late : ∀ rule ∈ rules, ∀ choice,
        ruleChoice host obj now modTime newerNoncurrent rule = some choice →
        choice.before event = false)
  | decided (rule : LifecycleRule)
      (decides : Decides host obj now modTime newerNoncurrent rules rule event)
  | nothing (expires : obj.restoredCopyExpiry now = none)
      (unasked : ∀ rule ∈ rules, ruleChoice host obj now modTime newerNoncurrent rule = none)
      (isDefault : event = .default)

theorem order_outcome (accepted : ∀ rule ∈ rules, rule.Accepted) :
    OrderOutcome host obj now modTime newerNoncurrent rules
      (mostUrgent ((obj.restoredCopyExpiry now).toList ++
        rulesEvents host obj now modTime newerNoncurrent rules)) := by
  cases expires : obj.restoredCopyExpiry now with
  | none =>
    cases events : rulesEvents host obj now modTime newerNoncurrent rules with
    | nil => exact .nothing expires (rules_events_none accepted events) rfl
    | cons first rest =>
      obtain ⟨rule, decides⟩ := least_decides accepted
        (by rw [events]; exact most_urgent_first_least first rest)
        (fun restored isRestored => by cases expires.symm.trans isRestored)
      exact .decided rule decides
  | some restored =>
    have least := most_urgent_first_least restored
      (rulesEvents host obj now modTime newerNoncurrent rules)
    rw [toList_some]
    have unended : ∀ rule ∈ rules, removesMarker obj rule = false := fun rule _ =>
      eq_false_iff.2 fun removes => by
        cases expires.symm.trans (removes_marker_not_restored removes)
    rw [← singleton_append] at least
    rcases least.append_cases with first | ⟨later, early⟩
    · have isRestored := mem_singleton.1 first.mem
      refine .restored (by rw [expires, isRestored]) fun rule member choice chosen => ?_
      rw [before_eq_false]
      exact least.le (mem_append_right _ (choice_mem_events accepted unended member chosen))
    · obtain ⟨rule, decides⟩ := least_decides accepted later (by
        intro other isOther
        obtain rfl : restored = other := Option.some.inj (expires.symm.trans isOther)
        exact early restored mem_cons_self)
      exact .decided rule decides

theorem Decides.not_restored {restored : Event}
    (decides : Decides host obj now modTime newerNoncurrent rules rule event)
    (expires : obj.restoredCopyExpiry now = some restored) (late : ∀ rule ∈ rules, ∀ choice,
      ruleChoice host obj now modTime newerNoncurrent rule = some choice →
      choice.before restored = false) : False := by
  rcases decides.leads with ⟨last, _, ends⟩ | ⟨_, early⟩
  · cases expires.symm.trans (removes_marker_not_restored ends)
  · cases (early restored expires).symm.trans (late rule decides.applies event decides.chosen)

theorem Decides.not_unasked (decides : Decides host obj now modTime newerNoncurrent rules rule event)
    (unasked : ∀ rule ∈ rules, ruleChoice host obj now modTime newerNoncurrent rule = none) :
    False := by
  cases decides.chosen.symm.trans (unasked rule decides.applies)

/-- Two events for the same rules have the same action and time if the rules that can decide
agree. -/
theorem OrderOutcome.agree {other : Event}
    (outcome : OrderOutcome host obj now modTime newerNoncurrent rules event)
    (outcome' : OrderOutcome host obj now modTime newerNoncurrent rules other)
    (agree : ∀ rule event other choice,
      Decides host obj now modTime newerNoncurrent rules rule event →
      Decides host obj now modTime newerNoncurrent rules other choice →
      event.action = choice.action ∧ event.due = choice.due) :
    event.action = other.action ∧ event.due = other.due := by
  cases outcome with
  | restored expires late =>
    cases outcome' with
    | restored expires' _ =>
      cases expires.symm.trans expires'
      exact ⟨rfl, rfl⟩
    | decided rule decides => exact (decides.not_restored expires late).elim
    | nothing expires' _ _ => cases expires.symm.trans expires'
  | decided rule decides =>
    cases outcome' with
    | restored expires late => exact (decides.not_restored expires late).elim
    | decided rule' decides' => exact agree rule event rule' other decides decides'
    | nothing _ unasked _ => exact (decides.not_unasked unasked).elim
  | nothing expires unasked isDefault =>
    cases outcome' with
    | restored expires' _ => cases expires.symm.trans expires'
    | decided rule decides => exact (decides.not_unasked unasked).elim
    | nothing _ _ isDefault' =>
      rw [isDefault, isDefault']
      exact ⟨rfl, rfl⟩

theorem Decides.perm (same : rules.Perm others)
    (decides : Decides host obj now modTime newerNoncurrent rules rule event) :
    Decides host obj now modTime newerNoncurrent others rule event where
  applies := same.mem_iff.1 decides.applies
  chosen := decides.chosen
  leads := by
    rcases decides.leads with ⟨last, member, removes⟩ | ⟨leads, early⟩
    · exact .inl ⟨last, same.mem_iff.1 member, removes⟩
    · exact .inr ⟨fun other member => leads other (same.mem_iff.2 member), early⟩

theorem OrderOutcome.perm (same : rules.Perm others)
    (outcome : OrderOutcome host obj now modTime newerNoncurrent rules event) :
    OrderOutcome host obj now modTime newerNoncurrent others event := by
  cases outcome with
  | restored expires late =>
    exact .restored expires fun rule member => late rule (same.mem_iff.2 member)
  | decided rule decides => exact .decided rule (decides.perm same)
  | nothing expires unasked isDefault =>
    exact .nothing expires (fun rule member => unasked rule (same.mem_iff.2 member)) isDefault

theorem scan_rule_first (accepted : rule.Accepted) (member : rule ∈ config.applicableRules host obj)
    (rest : List LifecycleRule) :
    rulesEvents host obj now modTime newerNoncurrent
      (BucketLifecycleConfiguration.applicableRules host ⟨rule :: rest⟩ obj) =
        if removesMarker obj rule then (ruleEvents host obj now modTime newerNoncurrent rule).1
        else (ruleEvents host obj now modTime newerNoncurrent rule).1 ++
          rulesEvents host obj now modTime newerNoncurrent
            (BucketLifecycleConfiguration.applicableRules host ⟨rest⟩ obj) := by
  rw [applicable_rules_cons member, rulesEvents, if_neg (by simp [accepted.retention]),
    rule_ends_iff accepted]

theorem removes_marker_events (accepted : rule.Accepted) (removes : removesMarker obj rule = true) :
    (ruleEvents host obj now modTime newerNoncurrent rule).1 =
      [rule.dueEvent .deleteVersionAction now] := by
  unfold ruleEvents
  rw [marker_event_eq accepted, if_pos removes]

/-- A rule that can decide does so in some order of the rules: in front of all others, directly
before a rule that ends the scan if there is one. -/
theorem decides_in_some_order (accepted : ∀ rule ∈ config.rules, rule.Accepted)
    (usable : lifecycleModTime obj = some modTime)
    (decides : Decides host obj now modTime newerNoncurrent (config.applicableRules host obj) rule
      event) :
    ∃ rules, rules.Perm config.rules ∧
      BucketLifecycleConfiguration.evalInner host ⟨rules⟩ obj now newerNoncurrent = event := by
  have isAccepted := accepted rule (applicable_rules_mem decides.applies)
  have least := rule_choice_eq.1 decides.chosen
  obtain ⟨rest, same⟩ := perm_cons_of_mem (applicable_rules_mem decides.applies)
  by_cases removes : removesMarker obj rule = true
  · refine ⟨rule :: rest, same, ?_⟩
    rw [eval_inner_usable usable, removes_marker_not_restored removes,
      scan_rule_first isAccepted decides.applies, if_pos removes]
    exact most_urgent_eq least
  · rcases decides.leads with ⟨last, member, ends⟩ | ⟨leads, early⟩
    · have lastAccepted := accepted last (applicable_rules_mem member)
      have inRest : last ∈ rest := by
        rcases mem_cons.1 (same.mem_iff.2 (applicable_rules_mem member)) with rfl | inRest
        · exact absurd ends removes
        · exact inRest
      obtain ⟨others, sameRest⟩ := perm_cons_of_mem inRest
      refine ⟨rule :: last :: others, (sameRest.cons rule).trans same, ?_⟩
      rw [eval_inner_usable usable, removes_marker_not_restored ends,
        scan_rule_first isAccepted decides.applies, if_neg removes,
        scan_rule_first lastAccepted member, if_pos ends, removes_marker_events lastAccepted ends]
      apply most_urgent_eq
      apply least.append_left
      intro item isItem
      rw [mem_singleton.1 isItem]
      obtain ⟨latest, marker⟩ := removes_marker_latest ends
      exact marker_events_over latest marker isAccepted least.mem
    · refine ⟨rule :: rest, same, ?_⟩
      rw [eval_inner_usable usable, scan_rule_first isAccepted decides.applies, if_neg removes]
      apply most_urgent_eq
      apply FirstLeast.append_right
      · apply least.append_left
        intro item isItem
        obtain ⟨other, isOther, isEvent⟩ := rules_events_mem isItem
        obtain ⟨choice, chosen, urgent⟩ := rule_choice_of_mem isEvent
        have applies : other ∈ config.applicableRules host obj := by
          apply (applicable_rules_perm same).mem_iff.1
          rw [applicable_rules_cons decides.applies]
          exact mem_cons_of_mem _ isOther
        exact le_trans ((before_eq_false _ _).1 (leads other applies choice chosen)) urgent
      · intro restored isRestored
        rw [← event_before_iff]
        exact early restored (mem_toList.1 isRestored)

end Order

/-- The order of the rules of an accepted configuration counts for a version exactly if two rules
that can decide ask for different actions or times. Rule ids and storage classes, which may differ
as well, are not compared. -/
theorem rule_order_counts_iff (host : Host) (lock : ObjectLockConfiguration)
    (config : BucketLifecycleConfiguration) (valid : config.validate host lock = .ok ())
    (obj : ObjectOpts) (now : OffsetDateTime) (newerNoncurrent : Nat) :
    (∀ rules : List LifecycleRule, rules.Perm config.rules →
      (BucketLifecycleConfiguration.evalInner host ⟨rules⟩ obj now newerNoncurrent).action =
          (config.evalInner host obj now newerNoncurrent).action ∧
        (BucketLifecycleConfiguration.evalInner host ⟨rules⟩ obj now newerNoncurrent).due =
          (config.evalInner host obj now newerNoncurrent).due) ↔
      config.RulesAgree host obj now newerNoncurrent := by
  have accepted := fun rule (member : rule ∈ config.rules) => validate_accepted valid member
  constructor
  · intro same modTime usable rule event other choice decides alsoDecides
    obtain ⟨rules, isPerm, rfl⟩ := decides_in_some_order accepted usable decides
    obtain ⟨others, alsoPerm, rfl⟩ := decides_in_some_order accepted usable alsoDecides
    have first := same rules isPerm
    have second := same others alsoPerm
    exact ⟨first.1.trans second.1.symm, first.2.trans second.2.symm⟩
  · intro agree rules isPerm
    cases usable : lifecycleModTime obj with
    | none =>
      unfold BucketLifecycleConfiguration.evalInner
      rw [usable]
      exact ⟨rfl, rfl⟩
    | some modTime =>
      have permuted := @order_outcome host obj now modTime newerNoncurrent
        (BucketLifecycleConfiguration.applicableRules host ⟨rules⟩ obj) fun rule member =>
          accepted rule (isPerm.mem_iff.1 (applicable_rules_mem member))
      have given := @order_outcome host obj now modTime newerNoncurrent
        (config.applicableRules host obj) fun rule member =>
          accepted rule (applicable_rules_mem member)
      rw [eval_inner_usable usable, eval_inner_usable usable]
      exact (permuted.perm (applicable_rules_perm isPerm)).agree given (agree modTime usable)

/-- Objects expire after some days, with their versions kept. -/
def objectRule (days : Int) : LifecycleRule :=
  { Evaluator.sampleRule with id := some "object", expiration := some ⟨none, some days, none, none⟩ }

theorem earlier_rule_decides :
    BucketLifecycleConfiguration.RulesAgree Evaluator.sampleHost (Evaluator.sampleVersion true)
      Evaluator.sampleHost.nowUtc 0 ⟨[objectRule 2, Evaluator.sampleRule]⟩ := by
  apply (rule_order_counts_iff Evaluator.sampleHost ⟨none, none⟩ _ (by rfl) _ _ 0).1
  intro rules same
  have orders : rules = [objectRule 2, Evaluator.sampleRule] ∨
      rules = [Evaluator.sampleRule, objectRule 2] := by
    have listed := mem_permutations.2 same
    simpa [List.permutations] using listed
  rcases orders with rfl | rfl
  · exact ⟨rfl, rfl⟩
  · exact ⟨by decide, by decide⟩

/-- The object and all its versions expire at the same time: the first rule decides. -/
theorem rule_order_counts :
    BucketLifecycleConfiguration.validate Evaluator.sampleHost ⟨none, none⟩
        ⟨[objectRule 1, Evaluator.sampleRule]⟩ = .ok () ∧
      [Evaluator.sampleRule, objectRule 1].Perm [objectRule 1, Evaluator.sampleRule] ∧
      (BucketLifecycleConfiguration.evalInner Evaluator.sampleHost
        ⟨[objectRule 1, Evaluator.sampleRule]⟩ (Evaluator.sampleVersion true)
        Evaluator.sampleHost.nowUtc 0).action = .deleteAction ∧
      (BucketLifecycleConfiguration.evalInner Evaluator.sampleHost
        ⟨[Evaluator.sampleRule, objectRule 1]⟩ (Evaluator.sampleVersion true)
        Evaluator.sampleHost.nowUtc 0).action = .deleteAllVersionsAction :=
  ⟨by rfl, .swap _ _ _, by decide, by decide⟩

/-- The features that make a rule active. A date counts whether it is over or not, and so does
the first transition. -/
def LifecycleRule.hasActiveFeature (rule : LifecycleRule) : Bool :=
  (rule.noncurrentVersionExpiration.any fun expiration =>
      expiration.noncurrentDays.any (0 ≤ ·) || expiration.newerNoncurrentVersions.any (0 < ·)) ||
    (rule.noncurrentVersionTransitions.any fun transitions => !transitions.isEmpty) ||
    (rule.delMarkerExpiration.bind fun days => days).any (0 < ·) ||
    (rule.expiration.any fun expiration => expiration.date.isSome || expiration.days.isSome ||
      expiration.expiredObjectDeleteMarker = some true) ||
    (rule.transitions.bind List.head?).isSome

/-- One of the two prefixes continues the other. -/
def prefixesMeet (text rulePrefix : String) : Bool :=
  text.isEmpty || rulePrefix.isEmpty || rulePrefix.toList.isPrefixOf text.toList ||
    text.toList.isPrefixOf rulePrefix.toList

def BucketLifecycleConfiguration.hasActiveRules (config : BucketLifecycleConfiguration)
    (text : String) : Bool :=
  config.rules.any fun rule => rule.status ≠ "Disabled" &&
    prefixesMeet text (rule.lifecycleRulePrefix.getD "") && rule.hasActiveFeature

section

variable {host : Host} {lock : ObjectLockConfiguration} {config : BucketLifecycleConfiguration}
  {rule : LifecycleRule} {obj : ObjectOpts} {now modTime : OffsetDateTime} {newerNoncurrent : Nat}
  {event : Event}

theorem validate_noncurrent_days (valid : config.validate host lock = .ok ())
    (member : rule ∈ config.rules) {expiration : NoncurrentVersionExpiration}
    (expires : rule.noncurrentVersionExpiration = some expiration) {days : Int}
    (isDays : expiration.noncurrentDays = some days) : 1 ≤ days := by
  unfold BucketLifecycleConfiguration.validate at valid
  simp only [Outcome.check_eq_ok] at valid
  obtain ⟨_, _, each, _⟩ := valid
  have checked := Outcome.for_m_eq_ok.1 each rule member
  unfold LifecycleRule.validateInBucket at checked
  simp only [Outcome.check_eq_ok, reject_if_ok] at checked
  have positive := checked.2.2.1
  rw [expires, any_some, isDays] at positive
  simpa using positive

theorem noncurrent_expiration_active
    (positive : ∀ expiration days, rule.noncurrentVersionExpiration = some expiration →
      expiration.noncurrentDays = some days → 1 ≤ days)
    (member : event ∈ noncurrentExpirationEvents host obj now newerNoncurrent rule) :
    rule.hasActiveFeature = true := by
  unfold noncurrentExpirationEvents at member
  cases expires : rule.noncurrentVersionExpiration with
  | none => simp [expires] at member
  | some expiration =>
    rw [expires] at member
    dsimp only at member
    split at member
    · rename_i applies
      rw [and_eq_true, and_eq_true, or_eq_true] at applies
      have counted : (expiration.noncurrentDays.any (0 ≤ ·) ||
          expiration.newerNoncurrentVersions.any (0 < ·)) = true := by
        rw [or_eq_true]
        refine applies.1.2.imp_left fun given => ?_
        obtain ⟨days, isDays⟩ := isSome_iff_exists.1 given
        have one := positive expiration days expires isDays
        rw [isDays, any_some]
        exact decide_eq_true (by omega)
      simp [LifecycleRule.hasActiveFeature, expires, counted]
    · cases member

theorem rule_events_active
    (positive : ∀ expiration days, rule.noncurrentVersionExpiration = some expiration →
      expiration.noncurrentDays = some days → 1 ≤ days)
    (member : event ∈ (ruleEvents host obj now modTime newerNoncurrent rule).1) :
    rule.hasActiveFeature = true := by
  unfold ruleEvents at member
  cases marker : expiredMarkerEvent host obj now rule with
  | some removal =>
    unfold expiredMarkerEvent at marker
    split at marker
    · obtain ⟨expiration, kept, _⟩ := bind_eq_some_iff.1 marker
      obtain ⟨expires, removes⟩ := filter_eq_some_iff.1 kept
      simp [LifecycleRule.hasActiveFeature, expires, of_decide_eq_true removes]
    · cases marker
  | none =>
    rw [marker] at member
    rcases mem_append.1 member with aged | others
    · unfold expiredMarkerDaysEvents at aged
      split at aged
      · cases expires : rule.expiration with
        | none => simp [expires] at aged
        | some expiration =>
          cases days : expiration.days with
          | none => simp [expires, days] at aged
          | some count => simp [LifecycleRule.hasActiveFeature, expires, days]
      · cases aged
    · cases deletes : delMarkerEvents host obj now modTime rule with
      | some events =>
        unfold delMarkerEvents at deletes
        split at deletes
        · obtain ⟨days, kept, _⟩ := map_eq_some_iff.1 deletes
          obtain ⟨isDays, counts⟩ := filter_eq_some_iff.1 kept
          simp only [LifecycleRule.hasActiveFeature, isDays, any_some, counts, Bool.or_true,
            Bool.true_or]
        · cases deletes
      | none =>
        rw [deletes, getD_none, versionEvents, mem_append, mem_append] at others
        rcases others with (expired | moved) | current
        · exact noncurrent_expiration_active positive expired
        · unfold noncurrentTransitionEvents at moved
          cases single : onlyOne rule.noncurrentVersionTransitions with
          | none => simp [single] at moved
          | some transition => simp [LifecycleRule.hasActiveFeature, only_one_some single]
        · split at current
          · rcases mem_append.1 current with expired | moved
            · unfold currentExpirationEvents at expired
              cases expires : rule.expiration with
              | none => simp [expires] at expired
              | some expiration =>
                cases date : expiration.date with
                | some day => simp [LifecycleRule.hasActiveFeature, expires, date]
                | none =>
                  cases days : expiration.days with
                  | none => simp [expires, date, days] at expired
                  | some count => simp [LifecycleRule.hasActiveFeature, expires, days]
            · unfold currentTransitionEvents at moved
              cases single : onlyOne rule.transitions with
              | none => simp [single] at moved
              | some transition => simp [LifecycleRule.hasActiveFeature, only_one_some single]
          · cases current

theorem prefixes_meet_of_name {text rulePrefix : String} {name : String}
    (starts : text.toList.isPrefixOf name.toList = true)
    (ruleStarts : rulePrefix.toList.isPrefixOf name.toList = true) :
    prefixesMeet text rulePrefix = true := by
  rw [List.isPrefixOf_iff_prefix] at starts ruleStarts
  unfold prefixesMeet
  rcases prefix_or_prefix_of_prefix starts ruleStarts with within | within
  · rw [List.isPrefixOf_iff_prefix.2 within, Bool.or_true]
  · rw [List.isPrefixOf_iff_prefix.2 within, Bool.or_true, Bool.true_or]

theorem applicable_rules_meet (member : rule ∈ config.applicableRules host obj) {text : String}
    (starts : text.toList.isPrefixOf obj.name.toList = true) :
    rule.status ≠ "Disabled" ∧ prefixesMeet text (rule.lifecycleRulePrefix.getD "") = true := by
  unfold BucketLifecycleConfiguration.applicableRules BucketLifecycleConfiguration.filterRules at member
  split at member
  · cases member
  · have applies := (mem_filter.1 member).2
    rw [LifecycleRule.appliesTo, and_eq_true, and_eq_true] at applies
    refine ⟨of_decide_eq_true applies.1.1, ?_⟩
    cases isPrefix : rule.lifecycleRulePrefix with
    | none => exact prefixes_meet_of_name starts (by rfl)
    | some rulePrefix =>
      have named := applies.1.2
      rw [isPrefix, all_some] at named
      exact prefixes_meet_of_name starts named

end

/-- No lifecycle work is skipped: below the prefix of an object on which an accepted
configuration acts, other than by removing a restored copy, the configuration is active. -/
theorem active_rules_complete (host : Host) (lock : ObjectLockConfiguration)
    (config : BucketLifecycleConfiguration) (valid : config.validate host lock = .ok ())
    (text : String) (obj : ObjectOpts) (starts : text.toList.isPrefixOf obj.name.toList = true)
    (now : OffsetDateTime) (newerNoncurrent : Nat)
    (acts : (config.evalInner host obj now newerNoncurrent).action ∉
      [.noneAction, .deleteRestoredAction, .deleteRestoredVersionAction]) :
    config.hasActiveRules text = true := by
  cases usable : lifecycleModTime obj with
  | none => exact absurd (by simp [BucketLifecycleConfiguration.evalInner, usable, Event.default]) acts
  | some modTime =>
    rw [eval_inner_usable usable] at acts
    rcases most_urgent_mem_or ((obj.restoredCopyExpiry now).toList ++ rulesEvents host obj now modTime
      newerNoncurrent (config.applicableRules host obj)) with chosen | nothing
    · rcases mem_append.1 chosen with restored | byRule
      · obtain ⟨_, _, copy⟩ := restored_rank (mem_toList.1 restored)
        exact absurd (by rcases copy with copy | copy <;> simp [copy]) acts
      · obtain ⟨rule, applies, asked⟩ := rules_events_mem byRule
        have member := applicable_rules_mem applies
        obtain ⟨enabled, meets⟩ := applicable_rules_meet applies starts
        have active := rule_events_active
          (fun _ _ expires isDays => validate_noncurrent_days valid member expires isDays) asked
        exact any_eq_true.2 ⟨rule, member, by simp [enabled, meets, active]⟩
    · exact absurd (by simp [nothing, Event.default]) acts

theorem sample_rule_active :
    (BucketLifecycleConfiguration.evalInner Evaluator.sampleHost ⟨[Evaluator.sampleRule]⟩
        (Evaluator.sampleVersion true) Evaluator.sampleHost.nowUtc 0).action =
      .deleteAllVersionsAction ∧
    BucketLifecycleConfiguration.hasActiveRules ⟨[Evaluator.sampleRule]⟩ "logs/" = true :=
  ⟨by decide, active_rules_complete Evaluator.sampleHost ⟨none, none⟩ _ (by rfl) "logs/"
    (Evaluator.sampleVersion true) (by decide) Evaluator.sampleHost.nowUtc 0 (by decide)⟩

end Rustfs.Lifecycle
