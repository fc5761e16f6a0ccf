import Rustfs.Lifecycle.Rules
import Rustfs.Library.Outcome

/-!
# Accepted configurations

`validate` of `lifecycle/src/core.rs` with the checks of its rules, filters, tags and
transitions, in the order in which they are made, and what an accepted rule looks like.
-/

namespace Rustfs.Lifecycle

open Filemeta Library

inductive ErrorKind
  | other
  | invalidInput
  | invalidData
  deriving DecidableEq

structure ValidateError where
  kind : ErrorKind
  message : String
  deriving DecidableEq

/-- `Error::other`. -/
def ValidateError.other (message : String) : ValidateError := ⟨.other, message⟩

def malformedXmlError (message : String) : ValidateError := ⟨.invalidData, message⟩

def errLifecycleNoRule : ValidateError :=
  .other "Lifecycle configuration should have at least one rule"

def errLifecycleDuplicateId : ValidateError :=
  .other "Rule ID must be unique. Found same ID for more than one rule"

def errLifecycleBucketLocked : ValidateError :=
  .other ("ExpiredObjectAllVersions element and DelMarkerExpiration action cannot be used on an " ++
    "object locked bucket")

def errLifecycleTooManyRules : ValidateError :=
  .other "Lifecycle configuration should have at most 1000 rules"

def errLifecycleInvalidExpirationDays : ValidateError :=
  .other "'Days' for Expiration action must be a positive integer"

def errLifecycleExpirationDaysDateConflict : ValidateError :=
  ⟨.invalidInput, "Expiration cannot specify both Days and Date"⟩

def errLifecycleMultipleTransitions : ValidateError :=
  ⟨.invalidInput, "Only one Transition action per lifecycle rule is supported"⟩

def errLifecycleMultipleNoncurrentTransitions : ValidateError :=
  ⟨.invalidInput, "Only one NoncurrentVersionTransition action per lifecycle rule is supported"⟩

def errLifecycleInvalidNoncurrentExpirationDays : ValidateError :=
  .other "'NoncurrentDays' for NoncurrentVersionExpiration action must be a positive integer"

def errLifecycleInvalidAbortIncompleteMpuDays : ValidateError :=
  .other "'DaysAfterInitiation' for AbortIncompleteMultipartUpload action must be a positive integer"

def errLifecycleInvalidExpirationDateNotMidnight : ValidateError :=
  .other "Expiration.Date must be at midnight UTC"

def errLifecycleInvalidExpiredObjectDeleteMarker : ValidateError :=
  .other "ExpiredObjectDeleteMarker cannot be specified with Days or Date"

def errLifecycleInvalidExpiredObjectAllVersions : ValidateError :=
  .other ("Days must be a positive integer and Date must not be specified inside Expiration with " ++
    "ExpiredObjectAllVersions")

def errLifecycleInvalidDelMarkerExpirationDays : ValidateError :=
  .other "Days must be a positive integer with DelMarkerExpiration"

def errLifecycleInvalidRuleIdTooLong : ValidateError :=
  .other "Rule ID must be at most 255 characters"

def errLifecycleInvalidRuleIdEmpty : ValidateError := .other "Rule ID must not be empty"

def errLifecycleInvalidRuleStatus : ValidateError :=
  .other "Rule status must be either Enabled or Disabled"

def errLifecycleDelMarkerWithTags : ValidateError :=
  .other "Rule with DelMarkerExpiration cannot have tags based filtering"

def errLifecycleExpiredObjectDeleteMarkerWithTags : ValidateError :=
  .other "Rule with ExpiredObjectDeleteMarker cannot have tags based filtering"

def errLifecycleRuleMustHaveAction : ValidateError :=
  .other ("Rule must have at least one of Expiration, Transition, NoncurrentVersionExpiration, " ++
    "NoncurrentVersionTransition, or DelMarkerExpiration")

def errLifecyclePrefixFilterConflict : ValidateError :=
  .other ("Legacy Prefix and Filter cannot both be present in a lifecycle rule. Use Filter.Prefix " ++
    "instead of the top-level Prefix element.")

def errLifecycleInvalidNewerNoncurrentVersions : ValidateError :=
  .other "'NewerNoncurrentVersions' must be a non-negative integer"

def errLifecycleFilterAndTooFewPredicates : ValidateError :=
  malformedXmlError "Filter And must contain at least two predicates"

def errLifecycleFilterTooManyPredicates : ValidateError :=
  malformedXmlError "Filter has too many predicates"

def errLifecycleFilterDuplicateTagKey : ValidateError := .other "Filter must not repeat a tag key"

def errLifecycleFilterInvalidTag : ValidateError :=
  .other "Tag key must be 1-128 characters and tag value must be at most 256 characters"

def errLifecycleFilterNegativeSize : ValidateError :=
  .other "ObjectSizeGreaterThan and ObjectSizeLessThan must not be negative"

def errLifecycleFilterSizeRange : ValidateError :=
  .other "ObjectSizeGreaterThan must be smaller than ObjectSizeLessThan"

def errXmlNotWellFormed : ValidateError := .other "ERR_XML_NOT_WELL_FORMED"

def errTransitionInvalid : ValidateError :=
  .other ("Exactly one of Days (0 or greater) or Date (positive ISO 8601 format) should be present " ++
    "in Transition.")

def maxTagKeyLen : Nat := 128

def maxTagValueLen : Nat := 256

def rejectIf (found : Bool) (error : ValidateError) : Except ValidateError Unit :=
  if found then .error error else .ok ()

theorem reject_if_ok {found : Bool} {error : ValidateError} :
    rejectIf found error = .ok () ↔ found = false := by
  cases found with
  | false => exact ⟨fun _ => rfl, fun _ => rfl⟩
  | true => exact ⟨fun passes => (nomatch passes), fun passes => (nomatch passes)⟩

def Tag.validateLifecycleTag (tag : Tag) : Except ValidateError Unit :=
  let key := tag.key.getD ""
  match tag.value with
  | none => .error errLifecycleFilterInvalidTag
  | some value =>
    rejectIf (key.isEmpty || maxTagKeyLen < key.toList.length ||
      maxTagValueLen < value.toList.length) errLifecycleFilterInvalidTag

def validateLifecycleSizeBounds (greaterThan lessThan : Option Int) : Except ValidateError Unit := do
  rejectIf (greaterThan.any (· < 0) || lessThan.any (· < 0)) errLifecycleFilterNegativeSize
  rejectIf (greaterThan.any fun least => lessThan.any fun most => most ≤ least)
    errLifecycleFilterSizeRange

/-- `seenKeys` are the keys of the tags before. -/
def validateAndTags (seenKeys : List String) : List Tag → Except ValidateError Unit
  | [] => .ok ()
  | tag :: rest => do
      tag.validateLifecycleTag
      let key := tag.key.getD ""
      rejectIf (seenKeys.contains key) errLifecycleFilterDuplicateTagKey
      validateAndTags (key :: seenKeys) rest

def LifecycleRuleAndOperator.validate (and : LifecycleRuleAndOperator) : Except ValidateError Unit := do
  let tags := and.tags.getD []
  let andPredicates := and.startsWith.isSome.toNat + tags.length +
    and.objectSizeGreaterThan.isSome.toNat + and.objectSizeLessThan.isSome.toNat
  rejectIf (andPredicates < 2) errLifecycleFilterAndTooFewPredicates
  validateAndTags [] tags
  validateLifecycleSizeBounds and.objectSizeGreaterThan and.objectSizeLessThan

def LifecycleRuleFilter.validateLifecycleFilter (filter : LifecycleRuleFilter) :
    Except ValidateError Unit := do
  let topLevelPredicates := filter.startsWith.isSome.toNat + filter.tag.isSome.toNat +
    filter.objectSizeGreaterThan.isSome.toNat + filter.objectSizeLessThan.isSome.toNat +
    filter.and.isSome.toNat
  rejectIf (1 < topLevelPredicates) errLifecycleFilterTooManyPredicates
  filter.tag.toList.forM Tag.validateLifecycleTag
  filter.and.toList.forM LifecycleRuleAndOperator.validate
  validateLifecycleSizeBounds filter.objectSizeGreaterThan filter.objectSizeLessThan

def LifecycleExpiration.validate (host : Host) (expiration : LifecycleExpiration) :
    Except ValidateError Unit := do
  rejectIf (expiration.expiredObjectAllVersions.isSome &&
    (expiration.days.all (· < 1) || expiration.date.isSome)) errLifecycleInvalidExpiredObjectAllVersions
  rejectIf (expiration.days.isSome && expiration.date.isSome) errLifecycleExpirationDaysDateConflict
  rejectIf (expiration.date.any fun date => !host.isMidnight date)
    errLifecycleInvalidExpirationDateNotMidnight
  rejectIf (expiration.days.any (· < 1)) errLifecycleInvalidExpirationDays

def Transition.validate (host : Host) (transition : Transition) : Except ValidateError Unit := do
  rejectIf (transition.storageClass.all String.isEmpty) errXmlNotWellFormed
  rejectIf (transition.date.isSome = transition.days.isSome) errTransitionInvalid
  rejectIf (transition.days.any (· < 0)) errTransitionInvalid
  rejectIf (transition.date.any fun date => unixTimestamp date ≤ 0 || !host.isMidnight date)
    errTransitionInvalid

def NoncurrentVersionTransition.validate (transition : NoncurrentVersionTransition) :
    Except ValidateError Unit := do
  rejectIf (transition.storageClass.all String.isEmpty) errXmlNotWellFormed
  rejectIf transition.noncurrentDays.isNone errTransitionInvalid
  rejectIf (transition.noncurrentDays.any (· < 0) ||
    transition.newerNoncurrentVersions.any (· < 0)) errTransitionInvalid

namespace LifecycleRule

def hasTagFilter (rule : LifecycleRule) : Bool :=
  rule.filter.any fun filter =>
    filter.tag.isSome || (filter.and.bind fun and => and.tags).isSome

/-- Whether the rule has an action; a positive retention count is one by itself. -/
def hasAction (rule : LifecycleRule) : Bool :=
  (rule.expiration.any fun expiration => expiration.days.isSome || expiration.date.isSome ||
      expiration.expiredObjectDeleteMarker.isSome) ||
    (rule.transitions.any fun transitions => !transitions.isEmpty) ||
    (rule.noncurrentVersionExpiration.any fun expiration => expiration.noncurrentDays.isSome ||
      expiration.newerNoncurrentVersions.any (0 < ·)) ||
    ((rule.noncurrentVersionTransitions.bind List.head?).bind fun transition =>
      transition.storageClass).isSome ||
    rule.abortIncompleteMultipartUpload.isSome ||
    (rule.delMarkerExpiration.bind fun days => days).any (0 < ·)

def validate (rule : LifecycleRule) : Except ValidateError Unit := do
  rejectIf ((rule.startsWith.any fun text => !text.isEmpty) && rule.filter.isSome)
    errLifecyclePrefixFilterConflict
  rule.filter.toList.forM LifecycleRuleFilter.validateLifecycleFilter
  rejectIf rule.hasCorruptRetentionCount errLifecycleInvalidNewerNoncurrentVersions
  rejectIf (rule.hasTagFilter && rule.delMarkerExpiration.isSome) errLifecycleDelMarkerWithTags
  rejectIf (rule.hasTagFilter && rule.expiration.any fun expiration =>
    expiration.expiredObjectDeleteMarker = some true) errLifecycleExpiredObjectDeleteMarkerWithTags
  rejectIf (rule.expiration.any fun expiration => expiration.expiredObjectDeleteMarker.isSome &&
    (expiration.days.isSome || expiration.date.isSome)) errLifecycleInvalidExpiredObjectDeleteMarker
  rejectIf (rule.delMarkerExpiration.any fun days => days.all (· < 1))
    errLifecycleInvalidDelMarkerExpirationDays
  rejectIf (!rule.hasAction) errLifecycleRuleMustHaveAction

/-- The checks of one rule in a configuration; `lockEnabled` is the bucket's object lock. -/
def validateInBucket (host : Host) (lockEnabled : Bool) (rule : LifecycleRule) :
    Except ValidateError Unit := do
  rejectIf (rule.status ≠ "Enabled" && rule.status ≠ "Disabled") errLifecycleInvalidRuleStatus
  rule.expiration.toList.forM (LifecycleExpiration.validate host)
  rejectIf (rule.noncurrentVersionExpiration.any fun expiration =>
    expiration.noncurrentDays.any (· < 1)) errLifecycleInvalidNoncurrentExpirationDays
  rejectIf (rule.abortIncompleteMultipartUpload.any fun days => days.all (· < 1))
    errLifecycleInvalidAbortIncompleteMpuDays
  rejectIf (rule.transitions.any fun transitions => 1 < transitions.length)
    errLifecycleMultipleTransitions
  (rule.transitions.getD []).forM (Transition.validate host)
  rejectIf (rule.noncurrentVersionTransitions.any fun transitions => 1 < transitions.length)
    errLifecycleMultipleNoncurrentTransitions
  (rule.noncurrentVersionTransitions.getD []).forM NoncurrentVersionTransition.validate
  rejectIf (rule.id.any String.isEmpty) errLifecycleInvalidRuleIdEmpty
  rejectIf (rule.id.any fun id => 255 < id.utf8ByteSize) errLifecycleInvalidRuleIdTooLong
  rule.validate
  rejectIf (lockEnabled && rule.expiration.any fun expiration =>
    expiration.expiredObjectAllVersions = some true) errLifecycleBucketLocked
  rejectIf (lockEnabled && rule.delMarkerExpiration.isSome) errLifecycleBucketLocked

def sameId (rule other : LifecycleRule) : Bool := rule.id.isSome && rule.id = other.id

end LifecycleRule

/-- Every rule is compared with those after it. -/
def validateUniqueIds : List LifecycleRule → Except ValidateError Unit
  | [] => .ok ()
  | rule :: rest => do
      rejectIf (rest.any rule.sameId) errLifecycleDuplicateId
      validateUniqueIds rest

def BucketLifecycleConfiguration.validate (host : Host) (lock : ObjectLockConfiguration)
    (config : BucketLifecycleConfiguration) : Except ValidateError Unit := do
  rejectIf (1000 < config.rules.length) errLifecycleTooManyRules
  rejectIf config.rules.isEmpty errLifecycleNoRule
  config.rules.forM (LifecycleRule.validateInBucket host (lock.objectLockEnabled = some "Enabled"))
  validateUniqueIds config.rules

/-- What evaluation relies on in a rule of an accepted configuration. -/
structure LifecycleRule.Accepted (rule : LifecycleRule) : Prop where
  retention : rule.hasCorruptRetentionCount = false
  markerAlone : ∀ expiration, rule.expiration = some expiration →
    expiration.expiredObjectDeleteMarker.isSome = true →
    expiration.days = none ∧ expiration.date = none
  daysPositive : ∀ expiration days, rule.expiration = some expiration →
    expiration.days = some days → 1 ≤ days

variable {host : Host} {lock : ObjectLockConfiguration} {config : BucketLifecycleConfiguration}
  {rule : LifecycleRule}

theorem LifecycleExpiration.validate_days {expiration : LifecycleExpiration} {days : Int}
    (valid : expiration.validate host = .ok ()) (isDays : expiration.days = some days) :
    1 ≤ days := by
  unfold LifecycleExpiration.validate at valid
  simp only [Outcome.check_eq_ok, reject_if_ok] at valid
  obtain ⟨_, _, _, positive⟩ := valid
  rw [isDays] at positive
  simpa using positive

theorem LifecycleRule.validate_leaves (valid : rule.validate = .ok ()) :
    rule.hasCorruptRetentionCount = false ∧
      ∀ expiration, rule.expiration = some expiration →
        expiration.expiredObjectDeleteMarker.isSome = true →
        expiration.days = none ∧ expiration.date = none := by
  unfold LifecycleRule.validate at valid
  simp only [Outcome.check_eq_ok, reject_if_ok] at valid
  obtain ⟨_, _, retention, _, _, alone, _, _⟩ := valid
  refine ⟨retention, fun expiration isExpiration marker => ?_⟩
  rw [isExpiration, Option.any_some, marker, Bool.true_and, Bool.or_eq_false_iff] at alone
  simpa using alone

theorem validate_accepted (valid : config.validate host lock = .ok ()) (member : rule ∈ config.rules) :
    rule.Accepted := by
  unfold BucketLifecycleConfiguration.validate at valid
  simp only [Outcome.check_eq_ok] at valid
  obtain ⟨_, _, each, _⟩ := valid
  have checked := Outcome.for_m_eq_ok.1 each rule member
  unfold LifecycleRule.validateInBucket at checked
  simp only [Outcome.check_eq_ok] at checked
  obtain ⟨_, expires, _, _, _, _, _, _, _, _, ruleValid, _, _⟩ := checked
  obtain ⟨retention, alone⟩ := LifecycleRule.validate_leaves ruleValid
  refine ⟨retention, alone, fun expiration days isExpiration isDays => ?_⟩
  rw [isExpiration] at expires
  exact LifecycleExpiration.validate_days
    (Outcome.for_m_eq_ok.1 expires expiration (List.mem_singleton.2 rfl)) isDays

end Rustfs.Lifecycle
