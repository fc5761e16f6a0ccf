import Rustfs.Lifecycle.Rules
import Rustfs.Library.FirstLeast
import Mathlib.Data.Prod.Lex
import Mathlib.Data.Int.Order.Basic

/-!
# The most urgent event

Which event `min_by_key` chooses, and which kinds of events the rules give to a noncurrent
version, to a current object and to a current delete marker.
-/

namespace Rustfs.Lifecycle

open List Filemeta Library BucketLifecycleConfiguration

/-- The key of `min_by_key`. -/
def Event.urgency (event : Event) : ℕ ×ₗ ℤ :=
  toLex (ilmActionPriorityRank event.action, unixTimestamp (event.due.getD .unixEpoch))

theorem event_before_iff (left right : Event) :
    left.before right = true ↔ left.urgency < right.urgency := by
  unfold Event.before Event.urgency
  rw [Prod.Lex.toLex_lt_toLex]
  simp

theorem most_urgent_first_least (first : Event) (rest : List Event) :
    FirstLeast Event.urgency (first :: rest) (mostUrgent (first :: rest)) := by
  have sameChoice : (fun best event : Event => if event.before best then event else best) =
      fun best event => if event.urgency < best.urgency then event else best := by
    funext best event
    simp only [event_before_iff]
  have scanned := (FirstLeast.singleton Event.urgency first).foldl rest
  unfold mostUrgent
  rw [sameChoice]
  exact scanned

variable {events : List Event} {event : Event}

theorem most_urgent_of_mem (member : event ∈ events) :
    FirstLeast Event.urgency events (mostUrgent events) := by
  cases events with
  | nil => cases member
  | cons first rest => exact most_urgent_first_least first rest

theorem most_urgent_eq
    (least : FirstLeast Event.urgency events event) : mostUrgent events = event :=
  (most_urgent_of_mem least.mem).unique least

theorem most_urgent_mem_or (events : List Event) :
    mostUrgent events ∈ events ∨ mostUrgent events = .default := by
  cases events with
  | nil => exact .inr rfl
  | cons first rest => exact .inl (most_urgent_first_least first rest).mem

theorem urgency_le_rank {left right : Event} (le : left.urgency ≤ right.urgency) :
    ilmActionPriorityRank left.action ≤ ilmActionPriorityRank right.action := by
  rcases (Prod.Lex.toLex_le_toLex).1 le with less | same
  · exact less.le
  · exact same.1.le

theorem most_urgent_rank_iff (events : List Event) :
    ilmActionPriorityRank (mostUrgent events).action = 0 ↔
      ∃ event ∈ events, ilmActionPriorityRank event.action = 0 := by
  constructor
  · intro first
    rcases most_urgent_mem_or events with chosen | isDefault
    · exact ⟨_, chosen, first⟩
    · rw [isDefault] at first
      cases first
  · rintro ⟨event, member, first⟩
    have bounded := urgency_le_rank ((most_urgent_of_mem member).le member)
    rw [first] at bounded
    exact Nat.le_zero.1 bounded

def BucketLifecycleConfiguration.applicableRules (host : Host) (config : BucketLifecycleConfiguration)
    (obj : ObjectOpts) : List LifecycleRule :=
  (config.filterRules host obj).getD []

section Rules

variable {host : Host} {obj : ObjectOpts} {now modTime : OffsetDateTime} {newerNoncurrent : Nat}
  {rule : LifecycleRule} {config : BucketLifecycleConfiguration}

theorem applicable_rules_mem (member : rule ∈ config.applicableRules host obj) :
    rule ∈ config.rules := by
  unfold applicableRules filterRules at member
  split at member
  · cases member
  · exact (mem_filter.1 member).1

theorem applicable_rules_cons (member : rule ∈ config.applicableRules host obj)
    (rest : List LifecycleRule) :
    BucketLifecycleConfiguration.applicableRules host ⟨rule :: rest⟩ obj =
      rule :: BucketLifecycleConfiguration.applicableRules host ⟨rest⟩ obj := by
  unfold applicableRules filterRules at *
  split at member
  · cases member
  · rename_i named
    simp [named, (mem_filter.1 member).2]

theorem applicable_rules_perm {rules others : List LifecycleRule} (same : rules.Perm others) :
    (BucketLifecycleConfiguration.applicableRules host ⟨rules⟩ obj).Perm
      (BucketLifecycleConfiguration.applicableRules host ⟨others⟩ obj) := by
  unfold applicableRules filterRules
  split
  · exact .refl _
  · exact same.filter _

theorem eval_inner_usable (usable : lifecycleModTime obj = some modTime) :
    config.evalInner host obj now newerNoncurrent =
      mostUrgent ((obj.restoredCopyExpiry now).toList ++
        rulesEvents host obj now modTime newerNoncurrent (config.applicableRules host obj)) := by
  unfold evalInner applicableRules
  rw [usable]
  cases config.filterRules host obj with
  | none => rfl
  | some rules => rfl

variable {event : Event}

theorem restored_rank (expires : obj.restoredCopyExpiry now = some event) :
    obj.deleteMarker = false ∧ event.due = some now ∧
      (event.action = .deleteRestoredAction ∨ event.action = .deleteRestoredVersionAction) := by
  unfold ObjectOpts.restoredCopyExpiry at expires
  split at expires
  · cases expires
  · split at expires
    · cases expires
    · dsimp only at expires
      cases isLatest : obj.isLatest with
      | true =>
        rw [isLatest, if_pos rfl] at expires
        split at expires
        · rename_i valid
          cases expires
          exact ⟨by simpa [expirationActionHasValidTarget] using valid, rfl, .inl rfl⟩
        · cases expires
      | false =>
        rw [isLatest, if_neg Bool.false_ne_true] at expires
        split at expires
        · rename_i valid
          cases expires
          simp only [expirationActionHasValidTarget, Bool.and_eq_true] at valid
          exact ⟨by simpa using valid.2, rfl, .inr rfl⟩
        · cases expires

theorem restored_not_first (member : event ∈ (obj.restoredCopyExpiry now).toList) :
    ilmActionPriorityRank event.action ≠ 0 := by
  obtain ⟨_, _, isRestored⟩ := restored_rank (Option.mem_toList.1 member)
  rcases isRestored with isRestored | isRestored <;> rw [isRestored] <;> decide

theorem rules_events_eq {rules : List LifecycleRule}
    (intact : ∀ rule ∈ rules, rule.hasCorruptRetentionCount = false)
    (goesOn : ∀ rule ∈ rules, (ruleEvents host obj now modTime newerNoncurrent rule).2 = false) :
    rulesEvents host obj now modTime newerNoncurrent rules =
      rules.flatMap fun rule => (ruleEvents host obj now modTime newerNoncurrent rule).1 := by
  induction rules with
  | nil => rfl
  | cons rule rules ih =>
    rw [rulesEvents, if_neg (by simp [intact rule mem_cons_self]),
      if_neg (by simp [goesOn rule mem_cons_self]), flatMap_cons,
      ih (fun other member => intact other (mem_cons_of_mem _ member))
        (fun other member => goesOn other (mem_cons_of_mem _ member))]

section

variable (intact : ∀ rule ∈ config.rules, rule.hasCorruptRetentionCount = false)
  (goesOn : ∀ rule, (ruleEvents host obj now modTime newerNoncurrent rule).2 = false)
  (usable : lifecycleModTime obj = some modTime)

include intact goesOn usable

theorem eval_inner_first_iff :
    ilmActionPriorityRank (config.evalInner host obj now newerNoncurrent).action = 0 ↔
      ∃ rule ∈ config.applicableRules host obj,
        ∃ event ∈ (ruleEvents host obj now modTime newerNoncurrent rule).1,
          ilmActionPriorityRank event.action = 0 := by
  rw [eval_inner_usable usable, most_urgent_rank_iff, rules_events_eq
    (fun rule member => intact rule (applicable_rules_mem member)) (fun rule _ => goesOn rule)]
  constructor
  · rintro ⟨event, member, first⟩
    rcases mem_append.1 member with restored | ofRules
    · exact absurd first (restored_not_first restored)
    · obtain ⟨rule, isRule, isEvent⟩ := mem_flatMap.1 ofRules
      exact ⟨rule, isRule, event, isEvent, first⟩
  · rintro ⟨rule, isRule, event, isEvent, first⟩
    exact ⟨event, mem_append_right _ (mem_flatMap.2 ⟨rule, isRule, isEvent⟩), first⟩

theorem eval_inner_first_mem
    (first : ilmActionPriorityRank (config.evalInner host obj now newerNoncurrent).action = 0) :
    ∃ rule ∈ config.applicableRules host obj, config.evalInner host obj now newerNoncurrent ∈
      (ruleEvents host obj now modTime newerNoncurrent rule).1 := by
  rw [eval_inner_usable usable, rules_events_eq
    (fun rule member => intact rule (applicable_rules_mem member)) (fun rule _ => goesOn rule)]
    at first ⊢
  rcases most_urgent_mem_or ((obj.restoredCopyExpiry now).toList ++
    (config.applicableRules host obj).flatMap fun rule =>
      (ruleEvents host obj now modTime newerNoncurrent rule).1) with chosen | isDefault
  · rcases mem_append.1 chosen with restored | ofRules
    · exact absurd first (restored_not_first restored)
    · exact mem_flatMap.1 ofRules
  · rw [isDefault] at first
    cases first

end

theorem rule_events_noncurrent (noncurrent : obj.isLatest = false) :
    ruleEvents host obj now modTime newerNoncurrent rule =
      (noncurrentExpirationEvents host obj now newerNoncurrent rule ++
        noncurrentTransitionEvents host obj now newerNoncurrent rule, false) := by
  simp [ruleEvents, expiredMarkerEvent, expiredMarkerDaysEvents, delMarkerEvents, versionEvents,
    noncurrent]

theorem noncurrent_expiration_latest (latest : obj.isLatest = true) :
    noncurrentExpirationEvents host obj now newerNoncurrent rule = [] := by
  unfold noncurrentExpirationEvents
  split <;> simp [latest]

theorem noncurrent_transition_latest (latest : obj.isLatest = true) :
    noncurrentTransitionEvents host obj now newerNoncurrent rule = [] := by
  unfold noncurrentTransitionEvents
  split
  · rfl
  · split <;> simp [latest]

theorem rule_events_current (latest : obj.isLatest = true) (object : obj.deleteMarker = false) :
    ruleEvents host obj now modTime newerNoncurrent rule =
      (currentExpirationEvents host now modTime rule ++ currentTransitionEvents host obj now rule,
        false) := by
  simp [ruleEvents, expiredMarkerEvent, expiredMarkerDaysEvents, delMarkerEvents, versionEvents,
    ObjectOpts.expiredObjectDeletemarker, noncurrent_expiration_latest, noncurrent_transition_latest,
    latest, object]

theorem version_events_marker (latest : obj.isLatest = true) (marker : obj.deleteMarker = true) :
    versionEvents host obj now modTime newerNoncurrent rule = [] := by
  simp [versionEvents, noncurrent_expiration_latest, noncurrent_transition_latest, latest, marker]

theorem noncurrent_transition_action
    (member : event ∈ noncurrentTransitionEvents host obj now newerNoncurrent rule) :
    event.action = .transitionVersionAction := by
  unfold noncurrentTransitionEvents at member
  split at member
  · cases member
  · split at member
    · cases member
    · split at member
      · rw [mem_singleton.1 member]
        rfl
      · cases member

theorem noncurrent_expiration_action
    (member : event ∈ noncurrentExpirationEvents host obj now newerNoncurrent rule) :
    event.action = .deleteVersionAction := by
  unfold noncurrentExpirationEvents at member
  split at member
  · cases member
  · split at member
    · split at member
      · cases member
      · dsimp only at member
        split at member
        · rw [mem_singleton.1 member]
          rfl
        · cases member
    · cases member

theorem current_transition_action (member : event ∈ currentTransitionEvents host obj now rule) :
    event.action = .transitionAction := by
  unfold currentTransitionEvents at member
  split at member
  · cases member
  · split at member
    · cases member
    · split at member
      · rw [mem_singleton.1 member]
        rfl
      · cases member

theorem current_expiration_action (member : event ∈ currentExpirationEvents host now modTime rule) :
    event.action = .deleteAction ∨ event.action = .deleteAllVersionsAction := by
  unfold currentExpirationEvents at member
  split at member
  · cases member
  · split at member
    · split at member
      · rw [mem_singleton.1 member]
        exact .inl rfl
      · cases member
    · split at member
      · cases member
      · dsimp only at member
        split at member
        · rw [mem_singleton.1 member]
          split
          · exact .inr rfl
          · exact .inl rfl
        · cases member

end Rules

end Rustfs.Lifecycle
