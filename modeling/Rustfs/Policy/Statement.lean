import Rustfs.Policy.Action
import Rustfs.Policy.Condition

/-!
# Statements and policies

`policy/statement.rs` and `Policy::is_allowed`. A Deny statement that covers the cleaned
path of an object denies the request. The validation of statements and the policies of
buckets are not part of this module.
-/

namespace Rustfs.Policy

open List Variables Wildcard Policy.Path Library.ShortCircuit

set_option linter.dupNamespace false

/-- The conditions of a statement, by their quantifier. -/
structure Functions where
  forAnyValue : List Condition
  forAllValues : List Condition
  forNormal : List Condition

namespace Functions

/-- The conditions in the order of the evaluation. -/
def conditions (functions : Functions) : List (Quantifier × Condition) :=
  functions.forAnyValue.map (fun condition => (.forAnyValue, condition)) ++
    functions.forAllValues.map (fun condition => (.forAllValues, condition)) ++
    functions.forNormal.map (fun condition => (.none, condition))

def evaluateWithResolver (parsers : Parsers) (fuel : Nat) (values : ConditionValues)
    (resolver : Option Resolver) (functions : Functions) : Option Bool :=
  functions.conditions.allM fun entry =>
    entry.2.evaluateWithResolver parsers fuel entry.1 values resolver

def referencesKeyName (functions : Functions) (keyName : KeyName) : Bool :=
  functions.conditions.any fun entry => entry.2.referencesKeyName keyName

end Functions

inductive Effect
  | allow
  | deny
  deriving DecidableEq

def Effect.isAllowed : Effect → Bool → Bool
  | allow, allowed => allowed
  | deny, allowed => !allowed

structure Args where
  account : Str
  action : Action
  bucket : Str
  conditions : ConditionValues
  isOwner : Bool
  object : Str
  claims : Claims
  denyOnly : Bool

def stringValue : Value → Option Str
  | .string text => some text
  | _ => none

def variableResolverForPolicyArgs (args : Args) : VariableContext :=
  { VariableContext.new with
    claims := some args.claims
    accountId := some args.account
    username := some (((args.claims.lookup (str "parent")).bind stringValue).getD args.account) }

def listsBucket (action : Action) : Bool :=
  action = .s3Action .listBucketAction || action = .s3Action .listBucketVersionsAction ||
    action = .s3Action .listBucketMultipartUploadsAction

def buildResource (action : Action) (bucket object : Str) (bucketResourceOnly : Bool) : Str :=
  if (listsBucket action && bucketResourceOnly) || object.isEmpty then bucket ++ [slash]
  else if object.head? = some slash then bucket ++ object
  else bucket ++ slash :: object

structure Statement where
  effect : Effect
  actions : ActionSet
  notActions : ActionSet
  resources : ResourceSet
  notResources : ResourceSet
  conditions : Functions

namespace Statement

def isKms (statement : Statement) : Bool := statement.actions.any Action.isKms
def isAdmin (statement : Statement) : Bool := statement.actions.any Action.isAdmin
def isSts (statement : Statement) : Bool := statement.actions.any Action.isSts

def skipsResourceMatchForArgs (statement : Statement) (args : Args) : Bool :=
  if statement.isSts then true
  else if !statement.isAdmin then false
  else
    match args.action with
    | .adminAction action => !action.isTableResourceScoped
    | _ => true

def kmsKeySegment : Str := str "key/"

def isBundle (action : Action) : Bool :=
  action = .kmsAction .backupAction || action = .kmsAction .restoreAction

def kmsKeyScopeMatches (fuel : Nat) (args : Args) (resolver : Resolver) (statement : Statement) :
    Option Bool :=
  if isBundle args.action && !(statement.resources.isEmpty && statement.notResources.isEmpty) then
    some (statement.effect = .deny)
  else
    let kmsResources : ResourceSet := statement.resources.filter Resource.isKms
    let kmsNotResources : ResourceSet := statement.notResources.filter Resource.isKms
    if kmsResources.isEmpty && kmsNotResources.isEmpty then some true
    else if args.object.isEmpty then some true
    else
      let requested := kmsKeySegment ++ args.object
      let inScope := if kmsResources.isEmpty then some true
        else kmsResources.isMatchWithResolver fuel requested args.conditions (some resolver)
      andAlso inScope
        ((kmsNotResources.isMatchWithResolver fuel requested args.conditions (some resolver)).map
          (! ·))

def resourceScopeMatches (fuel : Nat) (args : Args) (resolver : Resolver) (resource : Str)
    (statement : Statement) : Option Bool :=
  let listed := if statement.resources.isEmpty then some true
    else (statement.resources.isMatchWithResolver fuel resource args.conditions (some resolver)).map
      (· || statement.skipsResourceMatchForArgs args)
  let unlisted := if statement.notResources.isEmpty then some true
    else (statement.notResources.isMatchWithResolver fuel resource args.conditions
      (some resolver)).map fun excluded => !excluded || statement.skipsResourceMatchForArgs args
  andAlso listed unlisted

def requestReachesConditionEval (fuel : Nat) (args : Args) (resolver : Resolver)
    (statement : Statement) : Option Bool :=
  let deny : Bool := statement.effect = .deny
  if !statement.actions.statementCovers statement.notActions args.action deny then some false
  else if statement.isKms then statement.kmsKeyScopeMatches fuel args resolver
  else if statement.resources.isEmpty && statement.notResources.isEmpty && !statement.isAdmin &&
      !statement.isSts then some false
  else
    statement.resourceScopeMatches fuel args resolver
      (buildResource args.action args.bucket args.object
        (statement.conditions.referencesKeyName (.s3 .s3Prefix)))

/-- Whether the statement applies to the request. -/
def check (parsers : Parsers) (clock : Clock) (fuel : Nat) (args : Args) (statement : Statement) :
    Option Bool :=
  let resolver := (variableResolverForPolicyArgs args).resolveMultiple clock
  andAlso (statement.requestReachesConditionEval fuel args resolver)
    (statement.conditions.evaluateWithResolver parsers fuel args.conditions (some resolver))

def isAllowed (parsers : Parsers) (clock : Clock) (fuel : Nat) (args : Args) (statement : Statement) :
    Option Bool :=
  (statement.check parsers clock fuel args).map statement.effect.isAllowed

end Statement

structure Policy where
  version : Str
  statements : List Statement

def Policy.isAllowed (parsers : Parsers) (clock : Clock) (fuel : Nat) (args : Args)
    (policy : Policy) : Option Bool :=
  andAlso
    ((policy.statements.filter (·.effect = .deny)).allM
      (Statement.isAllowed parsers clock fuel args))
    (if args.denyOnly then some true
    else if args.isOwner then some true
    else (policy.statements.filter (·.effect = .allow)).anyM
      (Statement.isAllowed parsers clock fuel args))

section Unmarked

variable {pattern : Str}

theorem split_opening_tail {byte : UInt8} {text : Str} (plain : splitOpening (byte :: text) = none) :
    splitOpening text = none := by
  cases text with
  | nil => rfl
  | cons second text =>
    rw [splitOpening] at plain
    split at plain
    · cases plain
    · exact Option.map_eq_none_iff.1 plain

theorem replace_absent {text : Str} (plain : splitOpening text = none) (rest value : Str) :
    replace text (dollar :: openBrace :: rest) value = text := by
  unfold replace
  induction text with
  | nil => rfl
  | cons byte text ih =>
    have different : ¬ (dollar :: openBrace :: rest).isPrefixOf (byte :: text) = true := by
      rw [List.isPrefixOf_iff_prefix]
      rintro ⟨tail, same⟩
      rw [← same] at plain
      cases plain
    rw [replaceFrom, if_neg different, ih (split_opening_tail plain)]

section

variable (plain : hasOpening pattern = false)

include plain

theorem replace_common_absent (values : ConditionValues) :
    replaceCommonKeys values pattern = pattern := by
  have opening : splitOpening pattern = none := by
    simpa [hasOpening] using plain
  unfold replaceCommonKeys
  induction KeyName.commonKeys with
  | nil => rfl
  | cons key keys ih =>
    have same : replaceKey values pattern key = pattern := by
      unfold replaceKey
      cases firstValue values key with
      | none => rfl
      | some value => exact replace_absent opening _ value
    rw [foldl_cons, same]
    exact ih

theorem unmarked_settled (resolver : Resolver) : firstMarker resolver pattern = none := by
  have opening : splitOpening pattern = none := by
    simpa [hasOpening] using plain
  have vacant : markers pattern = [] := by
    unfold markers
    cases pattern.length with
    | zero => rfl
    | succ bound =>
      unfold markersFrom
      rw [opening]
  unfold firstMarker
  rw [vacant]
  rfl

theorem unmarked_resolves (resolver : Resolver) (fuel : Nat) :
    resolveWith (some resolver) (fuel + 2) pattern = some [pattern] := by
  have settled : singlePass resolver (fuel + 2) [pattern] = some [pattern] :=
    single_pass_of_settled (unmarked_settled plain resolver)
  have alone : [pattern].eraseDups = [pattern] := rfl
  unfold resolveWith resolveAwsVariables maxIterations repeatPasses
  simp [settled, passChanged, alone]

theorem unmarked_match (resource : Str) (conditions : ConditionValues) :
    (Resource.s3 pattern).isMatch resource conditions = Resource.acceptsPath resource pattern := by
  unfold Resource.isMatch
  rw [show (Resource.s3 pattern).pattern = pattern from rfl, replace_common_absent plain, ite_self]

theorem unmarked_match_with_resolver (resource : Str)
    (conditions : ConditionValues) (resolver : Resolver) (fuel : Nat) :
    (Resource.s3 pattern).isMatchWithResolver (fuel + 2) resource conditions (some resolver) =
      some ((Resource.s3 pattern).isMatch resource conditions) := by
  unfold Resource.isMatchWithResolver
  rw [show (Resource.s3 pattern).pattern = pattern from rfl, unmarked_resolves plain]
  simp [Resource.isMatch, Resource.pattern]

end

end Unmarked

section Objects

variable {pattern bucket key : Str}

theorem build_resource_object (action : Action) (nonempty : key ≠ [])
    (relative : key.head? ≠ some slash) :
    buildResource action bucket key false = bucket ++ slash :: key := by
  unfold buildResource
  simp [nonempty, relative]

theorem key_relative (named : ∀ segment ∈ segments (trimmed key), Named segment) :
    key ≠ [] ∧ key.head? ≠ some slash := by
  obtain ⟨trail, _, same⟩ := trimmed_trail key
  obtain ⟨first, elements, split, joined⟩ := segments_join (trimmed key)
  have whole := segments_no_slash (trimmed key)
  rw [split] at named whole
  have firstNamed := named first mem_cons_self
  have firstWhole := whole first mem_cons_self
  rw [same, joined]
  cases first with
  | nil => exact absurd rfl firstNamed.1
  | cons byte first =>
    refine ⟨by simp, ?_⟩
    intro isSlash
    cases isSlash
    exact firstWhole mem_cons_self

theorem object_match_iff (action : Action) (conditions : ConditionValues)
    (plain : hasOpening pattern = false) (bucketNamed : Named bucket) (bucketWhole : slash ∉ bucket)
    (named : ∀ segment ∈ segments (trimmed key), Named segment) :
    (Resource.s3 pattern).isMatch (buildResource action bucket key false) conditions = true ↔
      Covers pattern (bucket ++ slash :: trimmed key) := by
  obtain ⟨nonempty, relative⟩ := key_relative named
  have visible : bucket ++ slash :: trimmed key ≠ str "." := by
    intro same
    have inside : slash ∈ str "." := by
      rw [← same]
      simp
    revert inside
    decide
  rw [build_resource_object action nonempty relative, unmarked_match plain, Resource.accepts_path_iff,
    clean_object bucketNamed bucketWhole named]
  exact and_iff_right visible

def denyStatement (action : S3Action) (pattern : Str) : Statement :=
  ⟨.deny, [.s3Action action], [], [.s3 pattern], [], ⟨[], [], []⟩⟩

theorem deny_covers (action : S3Action) :
    ActionSet.statementCovers [.s3Action action] [] (.s3Action action) true = true := by
  have covered : Wildcard.isMatch (str action.text) (str action.text) = true :=
    (is_match_iff _ _).2 (covers_self _)
  simp [ActionSet.statementCovers, ActionSet.isMatchForEffect, Action.isMatchForEffect, Action.text,
    covered]

theorem deny_statement_checks (parsers : Parsers) (clock : Clock) (fuel : Nat) (args : Args)
    (action : S3Action) (requested : args.action = .s3Action action) :
    (denyStatement action pattern).check parsers clock fuel args =
      (Resource.s3 pattern).isMatchWithResolver fuel
        (buildResource args.action args.bucket args.object false) args.conditions
        (some ((variableResolverForPolicyArgs args).resolveMultiple clock)) := by
  have scope : ∀ resource, (denyStatement action pattern).resourceScopeMatches fuel args
      ((variableResolverForPolicyArgs args).resolveMultiple clock) resource =
        (Resource.s3 pattern).isMatchWithResolver fuel resource args.conditions
          (some ((variableResolverForPolicyArgs args).resolveMultiple clock)) := by
    intro resource
    have single : ResourceSet.isMatchWithResolver [.s3 pattern] fuel resource args.conditions
        (some ((variableResolverForPolicyArgs args).resolveMultiple clock)) =
          (Resource.s3 pattern).isMatchWithResolver fuel resource args.conditions
            (some ((variableResolverForPolicyArgs args).resolveMultiple clock)) := any_m_single _ _
    simp [Statement.resourceScopeMatches, denyStatement, single,
      Statement.skipsResourceMatchForArgs, Statement.isSts, Statement.isAdmin, Action.isSts,
      Action.isAdmin]
  have reached : (denyStatement action pattern).requestReachesConditionEval fuel args
      ((variableResolverForPolicyArgs args).resolveMultiple clock) =
        (denyStatement action pattern).resourceScopeMatches fuel args
          ((variableResolverForPolicyArgs args).resolveMultiple clock)
          (buildResource args.action args.bucket args.object false) := by
    simp [Statement.requestReachesConditionEval, denyStatement, requested, deny_covers,
      Statement.isKms, Action.isKms, Functions.referencesKeyName, Functions.conditions]
  unfold Statement.check
  dsimp only
  rw [reached, scope]
  exact and_also_true _

theorem policy_denied {parsers : Parsers} {clock : Clock} {fuel : Nat} {args : Args}
    {policy : Policy} {statement : Statement} (member : statement ∈ policy.statements)
    (denies : statement.effect = .deny)
    (applies : statement.isAllowed parsers clock fuel args = some false) {result : Bool}
    (done : policy.isAllowed parsers clock fuel args = some result) : result = false := by
  have listed : statement ∈ policy.statements.filter (·.effect = .deny) :=
    mem_filter.2 ⟨member, decide_eq_true denies⟩
  rcases and_also_some.1 done with ⟨_, isFalse⟩ | ⟨passed, _⟩
  · exact isFalse
  · have allowed := all_m_true.1 passed statement listed
    rw [applies] at allowed
    cases allowed

/-- The resource of an object is accepted exactly when the pattern covers the path
without a trailing slash; then a Deny statement about it denies the request. Keys with
empty or dot segments are cleaned to another path and are not covered here. -/
theorem covered_object_is_denied (pattern bucket key : Str) (conditions : ConditionValues)
    (plain : hasOpening pattern = false) (bucketNamed : Named bucket) (bucketWhole : slash ∉ bucket)
    (named : ∀ segment ∈ segments (trimmed key), Named segment) :
    (∀ action, (Resource.s3 pattern).isMatch (buildResource action bucket key false) conditions =
        true ↔ Covers pattern (bucket ++ slash :: trimmed key)) ∧
    (Covers pattern (bucket ++ slash :: trimmed key) →
      ∀ (parsers : Parsers) (clock : Clock) (args : Args) (action : S3Action),
        args.action = .s3Action action → args.bucket = bucket → args.object = key →
        Returns (fun fuel => (denyStatement action pattern).isAllowed parsers clock fuel args) false ∧
        ∀ policy : Policy, denyStatement action pattern ∈ policy.statements →
          ∀ result, Returns (fun fuel => policy.isAllowed parsers clock fuel args) result →
            result = false) := by
  refine ⟨fun action => object_match_iff action conditions plain bucketNamed bucketWhole named, ?_⟩
  intro covered parsers clock args action requested isBucket isObject
  have denied : ∀ fuel, (denyStatement action pattern).isAllowed parsers clock (fuel + 2) args =
      some false := by
    intro fuel
    have matched : (Resource.s3 pattern).isMatch
        (buildResource args.action args.bucket args.object false) args.conditions = true := by
      rw [isBucket, isObject]
      exact (object_match_iff _ _ plain bucketNamed bucketWhole named).2 covered
    unfold Statement.isAllowed
    rw [deny_statement_checks parsers clock _ args action requested,
      unmarked_match_with_resolver plain, matched]
    rfl
  refine ⟨⟨2, ?_⟩, ?_⟩
  · intro more enough
    obtain ⟨fuel, rfl⟩ := Nat.exists_eq_add_of_le' enough
    exact denied fuel
  · rintro policy member result ⟨fuel, done⟩
    exact policy_denied member rfl (denied fuel) (done (fuel + 2) (by omega))

/-- A request for an object of the bucket `b`. -/
def objectRequest (key : Str) : Args :=
  ⟨str "alice", .s3Action .getObjectAction, str "b", [], false, key, [], false⟩

theorem listed_object_is_denied :
    Returns (fun fuel => (denyStatement .getObjectAction (str "b/dir/*")).isAllowed
      Condition.stringParsers ⟨[], []⟩ fuel (objectRequest (str "dir/x"))) false :=
  ((covered_object_is_denied (str "b/dir/*") (str "b") (str "dir/x") [] (by decide)
    (by unfold Named; decide) (by decide) (by unfold Named; decide)).2
    ((is_match_iff _ _).1 (by decide)) Condition.stringParsers ⟨[], []⟩
    (objectRequest (str "dir/x")) .getObjectAction rfl rfl rfl).1

/-- The key of a directory is covered, and not matched. -/
theorem directory_key_is_missed :
    Covers (str "b/dir/*") (str "b/dir/") ∧
      (Resource.s3 (str "b/dir/*")).isMatch
        (buildResource (.s3Action .getObjectAction) (str "b") (str "dir/") false) [] = false ∧
      (denyStatement .getObjectAction (str "b/dir/*")).isAllowed Condition.stringParsers ⟨[], []⟩ 2
        (objectRequest (str "dir/")) = some true :=
  ⟨(is_match_iff _ _).1 (by decide), by decide, by decide⟩

end Objects

end Rustfs.Policy
