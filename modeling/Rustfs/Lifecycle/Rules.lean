import Rustfs.Filemeta.Replication
import Rustfs.Library.Utf8

/-!
# Lifecycle rules

The rules of a bucket's lifecycle configuration, the versions they are evaluated for, which
rules apply to a version and when their actions are due (`lifecycle/src/rule.rs` and the
calculations of `lifecycle/src/core.rs`).

`lifecycle/src/object_lock.rs`: a version is locked by its own metadata, or by the bucket's
default retention where it has none; what cannot be read counts as locked.

`Lifecycle::eval_inner` of `lifecycle/src/core.rs`: every rule that applies to a version gives the
events that are due, and the most urgent one is the version's event. Parsing of dates and tags and
the calendar are fields of `Host`; metrics are left out.
-/

namespace Rustfs.Lifecycle

open Filemeta Library Utils

/-- The clock, the environment variables, and the query-string and date functions of the
crates that the lifecycle code calls. -/
structure Host where
  nowUtc : OffsetDateTime
  ilmProcessTime : Option String
  ilmProcessTimeDeprecated : Option String
  ilmDebugDaySecs : Option String
  formUrlencodedParse : String → List (String × String)
  parseIso8601 : String → Option OffsetDateTime
  year : OffsetDateTime → Int
  replaceYear : OffsetDateTime → Int → Option OffsetDateTime
  replaceDay : OffsetDateTime → Nat → Option OffsetDateTime
  isMidnight : OffsetDateTime → Bool

structure Tag where
  key : Option String
  value : Option String

structure LifecycleRuleAndOperator where
  objectSizeGreaterThan : Option Int
  objectSizeLessThan : Option Int
  startsWith : Option String
  tags : Option (List Tag)

structure LifecycleRuleFilter where
  and : Option LifecycleRuleAndOperator
  objectSizeGreaterThan : Option Int
  objectSizeLessThan : Option Int
  startsWith : Option String
  tag : Option Tag

structure LifecycleExpiration where
  date : Option OffsetDateTime
  days : Option Int
  expiredObjectAllVersions : Option Bool
  expiredObjectDeleteMarker : Option Bool

structure NoncurrentVersionExpiration where
  newerNoncurrentVersions : Option Int
  noncurrentDays : Option Int

structure NoncurrentVersionTransition where
  newerNoncurrentVersions : Option Int
  noncurrentDays : Option Int
  storageClass : Option String

structure Transition where
  date : Option OffsetDateTime
  days : Option Int
  storageClass : Option String

/-- `delMarkerExpiration` and `abortIncompleteMultipartUpload` are the numbers of days of the
actions. -/
structure LifecycleRule where
  id : Option String
  status : String
  startsWith : Option String
  filter : Option LifecycleRuleFilter
  expiration : Option LifecycleExpiration
  abortIncompleteMultipartUpload : Option (Option Int)
  delMarkerExpiration : Option (Option Int)
  noncurrentVersionExpiration : Option NoncurrentVersionExpiration
  noncurrentVersionTransitions : Option (List NoncurrentVersionTransition)
  transitions : Option (List Transition)

structure BucketLifecycleConfiguration where
  rules : List LifecycleRule

structure ObjectOpts where
  name : String
  userTags : String
  modTime : Option OffsetDateTime
  size : Nat
  versionId : Option Uuid
  isLatest : Bool
  deleteMarker : Bool
  numVersions : Nat
  successorModTime : Option OffsetDateTime
  transitionStatus : String
  restoreExpires : Option OffsetDateTime
  userDefined : KeyMap String String
  versionPurgeStatus : VersionPurgeStatusType
  replicationStatus : ReplicationStatusType

inductive IlmAction
  | noneAction
  | deleteAction
  | deleteVersionAction
  | transitionAction
  | transitionVersionAction
  | deleteRestoredAction
  | deleteRestoredVersionAction
  | deleteAllVersionsAction
  | delMarkerDeleteAllVersionsAction
  | actionCount
  deriving DecidableEq

structure Event where
  action : IlmAction
  ruleId : String
  due : Option OffsetDateTime
  noncurrentDays : Nat
  newerNoncurrentVersions : Nat
  storageClass : String
  deriving DecidableEq

def Event.default : Event := ⟨.noneAction, "", some .unixEpoch, 0, 0, ""⟩

def transitionComplete : String := "complete"

def ObjectOpts.expiredObjectDeletemarker (obj : ObjectOpts) : Bool :=
  obj.deleteMarker && obj.isLatest && obj.numVersions = 1

def unixTimestamp (time : OffsetDateTime) : Int := time.unixTimestampNanos / 1000000000

/-- `saturating_add` of a duration in seconds. -/
def saturatingAddSeconds (time : OffsetDateTime) (seconds : Int) : OffsetDateTime where
  unixTimestampNanos :=
    max minUnixNanos (min maxUnixNanos (time.unixTimestampNanos + seconds * 1000000000))
  inRange := ⟨le_max_left _ _, max_le (by decide) (min_le_left _ _)⟩

def trim (text : String) : List Char :=
  ((text.toList.dropWhile isWhitespace).reverse.dropWhile isWhitespace).reverse

def parseDigits (digits : List Char) : Option Nat :=
  if digits.isEmpty || !digits.all Char.isDigit then none
  else some (digits.foldl (fun value digit => value * 10 + (digit.toNat - 48)) 0)

/-- `parse::<u32>`. -/
def parseU32 (text : List Char) : Option Nat :=
  let digits := match text with
    | '+' :: rest => rest
    | text => text
  (parseDigits digits).filter fun value => value < 2 ^ 32

/-- `parse::<i32>`, where the value is positive. -/
def parsePositiveI32 (text : List Char) : Option Nat :=
  let digits := match text with
    | '+' :: rest => rest
    | text => text
  (parseDigits digits).filter fun value => value < 2 ^ 31 && 0 < value

def defaultIlmDaySecs : Nat := 86400

def parseIlmDaySecs (raw : String) : Nat :=
  match parseU32 (trim raw) with
  | some secs => if 0 < secs then secs else defaultIlmDaySecs
  | none => defaultIlmDaySecs

def ilmDaySecs (host : Host) : Nat := host.ilmDebugDaySecs.elim defaultIlmDaySecs parseIlmDaySecs

def ilmProcessIntervalSecs (host : Host) : Nat :=
  ((host.ilmProcessTime.or host.ilmProcessTimeDeprecated).bind fun value =>
    parsePositiveI32 value.toList).getD (ilmDaySecs host)

def roundUp (nanos boundary : Int) : Int :=
  if nanos % boundary = 0 then nanos else nanos + (boundary - nanos % boundary)

def expectedExpiryTime (host : Host) (modTime : OffsetDateTime) (days : Int) : OffsetDateTime :=
  if days = 0 then .unixEpoch
  else
    let due := saturatingAddSeconds modTime (days * ilmDaySecs host)
    (OffsetDateTime.fromUnixTimestampNanos
      (roundUp due.unixTimestampNanos (ilmProcessIntervalSecs host * 1000000000))).getD due

def lifecycleModTime (obj : ObjectOpts) : Option OffsetDateTime :=
  match obj.modTime with
  | none => none
  | some modTime =>
    if modTime < .unixEpoch then none
    else if modTime = .unixEpoch then none
    else some modTime

def LifecycleExpiration.nextDue (host : Host) (expiration : LifecycleExpiration) (obj : ObjectOpts) :
    Option OffsetDateTime :=
  if !obj.isLatest || !obj.deleteMarker then none
  else
    match expiration.date.filter fun date => unixTimestamp date ≠ 0 with
    | some date => some date
    | none =>
      match expiration.days with
      | some days => obj.modTime.map fun modTime => expectedExpiryTime host modTime days
      | none => none

def NoncurrentVersionTransition.nextDue (host : Host) (transition : NoncurrentVersionTransition)
    (obj : ObjectOpts) : Option OffsetDateTime :=
  if obj.isLatest || transition.storageClass.isNone then none
  else
    match transition.noncurrentDays with
    | some days => some (expectedExpiryTime host (obj.successorModTime.getD host.nowUtc) days)
    | none => obj.successorModTime

def Transition.nextDue (host : Host) (transition : Transition) (obj : ObjectOpts) :
    Option OffsetDateTime :=
  if !obj.isLatest then none
  else
    match transition.date with
    | some date => some date
    | none =>
      match transition.days, obj.modTime with
      | some days, some modTime => some (expectedExpiryTime host modTime days)
      | some _, none => none
      | none, modTime => modTime

def decodeTagsToMap (host : Host) (tags : String) : KeyMap String String :=
  ((host.formUrlencodedParse tags).filter fun entry => !entry.1.isEmpty).foldl
    (fun map entry => map.insert entry.1 entry.2) .empty

def tagMatches (tag : Tag) (userTags : KeyMap String String) : Bool :=
  match tag.key, tag.value with
  | some key, some value => userTags.get key = some value
  | _, _ => false

namespace LifecycleRuleFilter

def requiresTagMatching (filter : LifecycleRuleFilter) : Bool :=
  filter.tag.isSome || (filter.and.bind fun and => and.tags).any fun tags => !tags.isEmpty

def testTags (host : Host) (filter : LifecycleRuleFilter) (userTags : String) : Bool :=
  if !filter.requiresTagMatching then true
  else
    let userTags := decodeTagsToMap host userTags
    (filter.tag.all fun tag => tagMatches tag userTags) &&
      filter.and.all fun and => and.tags.all fun tags => tags.all fun tag => tagMatches tag userTags

def sizeWithin (greaterThan lessThan : Option Int) (size : Int) : Bool :=
  (greaterThan.all fun least => least < size) && lessThan.all fun most => size < most

def bySize (filter : LifecycleRuleFilter) (size : Int) : Bool :=
  sizeWithin filter.objectSizeGreaterThan filter.objectSizeLessThan (max size 0) &&
    filter.and.all fun and =>
      sizeWithin and.objectSizeGreaterThan and.objectSizeLessThan (max size 0)

end LifecycleRuleFilter

namespace LifecycleRule

/-- An empty legacy prefix counts as none. -/
def lifecycleRulePrefix (rule : LifecycleRule) : Option String :=
  match rule.startsWith.filter fun text => !text.isEmpty with
  | some text => some text
  | none => rule.filter.bind fun filter =>
    filter.startsWith.or (filter.and.bind fun and => and.startsWith)

def retainedNoncurrentVersions (count : Int) : Option Nat :=
  if 0 ≤ count then some count.toNat else none

def hasCorruptRetentionCount (rule : LifecycleRule) : Bool :=
  ((rule.noncurrentVersionExpiration.bind fun expiration =>
      expiration.newerNoncurrentVersions).toList ++
    (rule.noncurrentVersionTransitions.getD []).filterMap fun transition =>
      transition.newerNoncurrentVersions).any fun count => (retainedNoncurrentVersions count).isNone

def appliesTo (host : Host) (rule : LifecycleRule) (obj : ObjectOpts) : Bool :=
  rule.status ≠ "Disabled" &&
    (rule.lifecycleRulePrefix.all fun text => text.toList.isPrefixOf obj.name.toList) &&
    rule.filter.all fun filter => filter.testTags host obj.userTags &&
      (obj.deleteMarker || filter.bySize (min obj.size (2 ^ 63 - 1)))

end LifecycleRule

def BucketLifecycleConfiguration.filterRules (host : Host) (config : BucketLifecycleConfiguration)
    (obj : ObjectOpts) : Option (List LifecycleRule) :=
  if obj.name.isEmpty then none else some (config.rules.filter fun rule => rule.appliesTo host obj)

structure DefaultRetention where
  mode : Option String
  days : Option Int
  years : Option Int

/-- `rule` is the default retention of the configuration's rule, if there is one. -/
structure ObjectLockConfiguration where
  objectLockEnabled : Option String
  rule : Option (Option DefaultRetention)

def objectLockLegalHold : String := "x-amz-object-lock-legal-hold"

def objectLockMode : String := "x-amz-object-lock-mode"

def objectLockRetainUntilDate : String := "x-amz-object-lock-retain-until-date"

def isRetentionMode (mode : String) : Bool :=
  eqIgnoreAsciiCase mode "COMPLIANCE" || eqIgnoreAsciiCase mode "GOVERNANCE"

def isObjectLockedByMetadata (host : Host) (userDefined : KeyMap String String)
    (isDeleteMarker : Bool) : Bool :=
  if isDeleteMarker then false
  else if (userDefined.get objectLockLegalHold).any fun value => eqIgnoreAsciiCase value "ON" then true
  else
    match userDefined.get objectLockMode with
    | none => false
    | some mode =>
      if !isRetentionMode mode then false
      else ((userDefined.get objectLockRetainUntilDate).bind host.parseIso8601).any fun retainUntil =>
        unixTimestamp host.nowUtc < unixTimestamp retainUntil

def hasExplicitLockMetadata (userDefined : KeyMap String String) : Bool :=
  (userDefined.get objectLockLegalHold).isSome || (userDefined.get objectLockMode).isSome ||
    (userDefined.get objectLockRetainUntilDate).isSome

def explicitLockMetadataIsWellFormed (host : Host) (userDefined : KeyMap String String) : Bool :=
  if (userDefined.get objectLockLegalHold).any fun value =>
      !eqIgnoreAsciiCase value "ON" && !eqIgnoreAsciiCase value "OFF" then false
  else
    match userDefined.get objectLockMode, userDefined.get objectLockRetainUntilDate with
    | none, none => true
    | some mode, some retainUntil => isRetentionMode mode && (host.parseIso8601 retainUntil).isSome
    | _, _ => false

/-- The 29th of February becomes the 28th where the year has none. -/
def addYears (host : Host) (modTime : OffsetDateTime) (years : Int) : Option OffsetDateTime :=
  let targetYear := host.year modTime + years
  if -2 ^ 31 ≤ targetYear ∧ targetYear < 2 ^ 31 then
    (host.replaceYear modTime targetYear).or
      ((host.replaceDay modTime 28).bind fun date => host.replaceYear date targetYear)
  else none

def defaultRetentionUntil (host : Host) (modTime : OffsetDateTime) (retention : DefaultRetention) :
    Option OffsetDateTime :=
  match retention.days, retention.years with
  | some days, none => if 0 < days then some (saturatingAddSeconds modTime (days * 86400)) else none
  | none, some years => if 0 < years then addYears host modTime years else none
  | _, _ => none

def isObjectLocked (host : Host) (userDefined : KeyMap String String) (isDeleteMarker : Bool)
    (config : Option ObjectLockConfiguration) (modTime : Option OffsetDateTime) : Bool :=
  if isDeleteMarker then false
  else if isObjectLockedByMetadata host userDefined false then true
  else if hasExplicitLockMetadata userDefined then
    !explicitLockMetadataIsWellFormed host userDefined
  else
    match config.bind fun config => config.rule.bind fun rule => rule with
    | none => false
    | some retention =>
      match retention.mode with
      | none => true
      | some mode =>
        if !isRetentionMode mode then true
        else
          match modTime with
          | none => true
          | some modTime =>
            match defaultRetentionUntil host modTime retention with
            | none => true
            | some retainUntil => unixTimestamp host.nowUtc < unixTimestamp retainUntil

def expirationActionHasValidTarget (action : IlmAction) (versionId : Option Uuid)
    (isLatest deleteMarker : Bool) : Bool :=
  match action with
  | .deleteAction | .deleteRestoredAction => isLatest && !deleteMarker
  | .deleteVersionAction => versionId.isSome && (!isLatest || deleteMarker)
  | .deleteRestoredVersionAction => versionId.isSome && !isLatest && !deleteMarker
  | .deleteAllVersionsAction => isLatest && !deleteMarker
  | .delMarkerDeleteAllVersionsAction => isLatest && deleteMarker
  | _ => true

def ObjectOpts.restoredCopyExpiry (obj : ObjectOpts) (now : OffsetDateTime) : Option Event :=
  match obj.restoreExpires with
  | none => none
  | some restoreExpires =>
    if obj.transitionStatus ≠ transitionComplete || unixTimestamp restoreExpires = 0 ||
        unixTimestamp now ≤ unixTimestamp restoreExpires then none
    else
      let action : IlmAction :=
        if obj.isLatest then .deleteRestoredAction else .deleteRestoredVersionAction
      if expirationActionHasValidTarget action obj.versionId obj.isLatest obj.deleteMarker then
        some { Event.default with action := action, due := some now }
      else none

def LifecycleRule.dueEvent (rule : LifecycleRule) (action : IlmAction) (due : OffsetDateTime) : Event :=
  { Event.default with action := action, ruleId := rule.id.getD "", due := some due }

section Rule

variable (host : Host) (obj : ObjectOpts) (now modTime : OffsetDateTime) (newerNoncurrent : Nat)
  (rule : LifecycleRule)

/-- The only version is a delete marker, and the rule removes such markers. -/
def expiredMarkerEvent : Option Event :=
  if obj.isLatest && obj.expiredObjectDeletemarker then
    (rule.expiration.filter fun expiration =>
      expiration.expiredObjectDeleteMarker = some true).bind fun expiration =>
        let due := (expiration.nextDue host obj).getD now
        if unixTimestamp due ≤ unixTimestamp now then some (rule.dueEvent .deleteVersionAction due)
        else none
  else none

def expiredMarkerDaysEvents : List Event :=
  if obj.isLatest && obj.expiredObjectDeletemarker then
    match rule.expiration.bind fun expiration => expiration.days with
    | none => []
    | some days =>
      let due := expectedExpiryTime host modTime days
      if unixTimestamp due ≤ unixTimestamp now then [rule.dueEvent .deleteVersionAction due] else []
  else []

/-- Where this applies, the rule has no other event for the version. -/
def delMarkerEvents : Option (List Event) :=
  if obj.isLatest && obj.deleteMarker then
    ((rule.delMarkerExpiration.bind fun days => days).filter fun days => 0 < days).map fun days =>
      let due := expectedExpiryTime host modTime days
      if unixTimestamp due ≤ unixTimestamp now then
        [rule.dueEvent .delMarkerDeleteAllVersionsAction due]
      else []
  else none

/-- The newer noncurrent versions reach the number that a rule retains. -/
def pastRetained (retain : Option Int) : Bool :=
  retain.all fun count =>
    (LifecycleRule.retainedNoncurrentVersions count).any fun count => count ≤ newerNoncurrent

def noncurrentExpirationEvents : List Event :=
  match rule.noncurrentVersionExpiration with
  | none => []
  | some expiration =>
    if !obj.isLatest &&
        (expiration.noncurrentDays.isSome ||
          expiration.newerNoncurrentVersions.any fun count => 0 < count) &&
        pastRetained newerNoncurrent expiration.newerNoncurrentVersions then
      match obj.successorModTime with
      | none => []
      | some successorModTime =>
        let due := expectedExpiryTime host successorModTime (expiration.noncurrentDays.getD 0)
        if unixTimestamp due ≤ unixTimestamp now then [rule.dueEvent .deleteVersionAction due]
        else []
    else []

/-- Transitions of a rule are only looked at if there is exactly one. -/
def onlyOne {α : Type} : Option (List α) → Option α
  | some [single] => some single
  | _ => none

theorem only_one_some {α : Type} {items : Option (List α)} {item : α}
    (single : onlyOne items = some item) : items = some [item] := by
  unfold onlyOne at single
  split at single
  · cases single
    rfl
  · cases single

def transitionDue (due : Option OffsetDateTime) : Bool :=
  due.any fun due => unixTimestamp now = 0 || unixTimestamp due < unixTimestamp now

def transitionEvent (action : IlmAction) (due : Option OffsetDateTime) (storageClass : String) : Event :=
  { Event.default with
    action := action, ruleId := rule.id.getD "", due := due, storageClass := storageClass }

def noncurrentTransitionEvents : List Event :=
  match onlyOne rule.noncurrentVersionTransitions with
  | none => []
  | some transition =>
    match transition.storageClass.filter fun storageClass => !storageClass.isEmpty with
    | none => []
    | some storageClass =>
      if !obj.isLatest && pastRetained newerNoncurrent transition.newerNoncurrentVersions &&
          !obj.deleteMarker && obj.transitionStatus ≠ transitionComplete &&
          transitionDue now (transition.nextDue host obj) then
        [transitionEvent rule .transitionVersionAction (transition.nextDue host obj) storageClass]
      else []

def currentExpirationEvents : List Event :=
  match rule.expiration with
  | none => []
  | some expiration =>
    match expiration.date with
    | some date =>
      if unixTimestamp date ≠ 0 ∧ unixTimestamp date ≤ unixTimestamp now then
        [rule.dueEvent .deleteAction date]
      else []
    | none =>
      match expiration.days with
      | none => []
      | some days =>
        let due := expectedExpiryTime host modTime days
        if unixTimestamp due ≤ unixTimestamp now then
          [rule.dueEvent (if expiration.expiredObjectAllVersions.getD false then
            .deleteAllVersionsAction else .deleteAction) due]
        else []

def currentTransitionEvents : List Event :=
  match onlyOne rule.transitions with
  | none => []
  | some transition =>
    match transition.storageClass.filter fun storageClass => !storageClass.isEmpty with
    | none => []
    | some storageClass =>
      if obj.transitionStatus ≠ transitionComplete &&
          transitionDue now (transition.nextDue host obj) then
        [transitionEvent rule .transitionAction (transition.nextDue host obj) storageClass]
      else []

def versionEvents : List Event :=
  noncurrentExpirationEvents host obj now newerNoncurrent rule ++
    noncurrentTransitionEvents host obj now newerNoncurrent rule ++
    if obj.isLatest && !obj.deleteMarker then
      currentExpirationEvents host now modTime rule ++ currentTransitionEvents host obj now rule
    else []

/-- The events of a rule; after `true` no further rule is looked at. -/
def ruleEvents : List Event × Bool :=
  match expiredMarkerEvent host obj now rule with
  | some event => ([event], true)
  | none =>
    (expiredMarkerDaysEvents host obj now modTime rule ++
      (delMarkerEvents host obj now modTime rule).getD
        (versionEvents host obj now modTime newerNoncurrent rule), false)

def rulesEvents : List LifecycleRule → List Event
  | [] => []
  | rule :: rest =>
    if rule.hasCorruptRetentionCount then rulesEvents rest
    else if (ruleEvents host obj now modTime newerNoncurrent rule).2 then
      (ruleEvents host obj now modTime newerNoncurrent rule).1
    else (ruleEvents host obj now modTime newerNoncurrent rule).1 ++ rulesEvents rest

end Rule

def ilmActionPriorityRank : IlmAction → Nat
  | .deleteAllVersionsAction | .delMarkerDeleteAllVersionsAction | .deleteAction
  | .deleteVersionAction => 0
  | _ => 1

/-- Expiration goes before transition; within a class the earliest deadline counts. -/
def Event.before (left right : Event) : Bool :=
  let leftRank := ilmActionPriorityRank left.action
  let rightRank := ilmActionPriorityRank right.action
  leftRank < rightRank || (leftRank = rightRank &&
    unixTimestamp (left.due.getD .unixEpoch) < unixTimestamp (right.due.getD .unixEpoch))

/-- `min_by_key`: the first of the most urgent events. -/
def mostUrgent : List Event → Event
  | [] => .default
  | first :: rest => rest.foldl (fun best event => if event.before best then event else best) first

def BucketLifecycleConfiguration.evalInner (host : Host) (config : BucketLifecycleConfiguration)
    (obj : ObjectOpts) (now : OffsetDateTime) (newerNoncurrent : Nat) : Event :=
  match lifecycleModTime obj with
  | none => .default
  | some modTime => mostUrgent ((obj.restoredCopyExpiry now).toList ++
      match config.filterRules host obj with
      | none => []
      | some rules => rulesEvents host obj now modTime newerNoncurrent rules)

end Rustfs.Lifecycle
