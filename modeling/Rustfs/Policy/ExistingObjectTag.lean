import Rustfs.Policy.StatementEq

/-!
# Object tags in identity and bucket policies

The tags of an object are looked up only where a policy may need them. The functions of
`policy/policy.rs` that say so look for the tag keys in the condition blocks of the statements
that a request reaches. Of the serialized conditions only the object keys are kept, which is what
these functions read.

`BPStatement`, `BucketPolicy` and `PolicySys` of `policy/statement.rs`, `policy/policy.rs` and
`bucket/policy_sys.rs`. A bucket policy names its principals and expands no variables, so its
evaluation always ends. Sids, ids and groups, which no evaluation reads, and the validation of a
policy are left out.
-/

namespace Rustfs.Policy

open List Variables Wildcard Library.ShortCircuit

def isExistingObjectTagConditionKey (key : Str) : Bool :=
  key = str "ExistingObjectTag" || key = str "s3:ExistingObjectTag" ||
    (str "ExistingObjectTag/").isPrefixOf key || (str "s3:ExistingObjectTag/").isPrefixOf key

def Key.serialized (key : Key) : Str :=
  match key.variableText with
  | some rest => str key.name.text ++ str "/" ++ rest
  | none => str key.name.text

def InnerFunc.keys {α : Type} (func : InnerFunc α) : List Key := func.map FuncKeyValue.key

def Condition.keys : Condition → List Key
  | .string _ func => func.keys
  | .binaryEquals func => func.keys
  | .address _ func => func.keys
  | .bool _ func => func.keys
  | .number _ func => func.keys
  | .date _ func => func.keys
  | .ifExists inner => inner.keys

/-- The keys of the serialized blocks. An operator is no key of a tag and has one block, and
the values hold no further objects. -/
def functionsUseExistingObjectTag (conditions : Functions) : Bool :=
  conditions.conditions.any fun entry =>
    entry.2.keys.any fun key => isExistingObjectTagConditionKey key.serialized

def policyUsesExistingObjectTagConditions (policy : Policy) : Bool :=
  policy.statements.any fun statement => functionsUseExistingObjectTag statement.conditions

def policyNeedsExistingObjectTagForArgs (clock : Clock) (fuel : Nat) (policy : Policy)
    (args : Args) : Option Bool :=
  if !policyUsesExistingObjectTagConditions policy then some false
  else
    let resolver := (variableResolverForPolicyArgs args).resolveMultiple clock
    policy.statements.anyM fun statement =>
      if !functionsUseExistingObjectTag statement.conditions then some false
      else statement.requestReachesConditionEval fuel args resolver

def tagConditionKey (tag : Str) : Str := str "ExistingObjectTag/" ++ tag

def mergeTagCondition (conditions : ConditionValues) (entry : Str × List Str) : ConditionValues :=
  match conditions.lookup entry.1 with
  | some _ => conditions.map fun existing =>
    if existing.1 = entry.1 then (existing.1, existing.2 ++ entry.2) else existing
  | none => conditions ++ [entry]

def mergeObjectTagConditions (conditions tags : ConditionValues) : ConditionValues :=
  tags.foldl mergeTagCondition conditions

def objectTagConditions (tags : List (Str × Str)) : ConditionValues :=
  tags.map fun tag => (tagConditionKey tag.1, [tag.2])

/-- The request with the conditions of the tags. -/
def Args.withTags (args : Args) (tags : List (Str × Str)) : Args :=
  { args with conditions := mergeObjectTagConditions args.conditions (objectTagConditions tags) }

/-- The condition map has the same values for every key that is not the key of a tag. -/
def AgreeOffTags (values others : ConditionValues) : Prop :=
  ∀ key, (str "ExistingObjectTag/").isPrefixOf key = false → values.lookup key = others.lookup key

variable {values : ConditionValues}

theorem lookup_map_value {changed key : Str} (different : key ≠ changed)
    (change : List Str → List Str) :
    (values.map fun entry => if entry.1 = changed then (entry.1, change entry.2) else entry).lookup key =
      values.lookup key := by
  induction values with
  | nil => rfl
  | cons entry values ih =>
    obtain ⟨name, value⟩ := entry
    rw [map_cons]
    by_cases isChanged : name = changed
    · have other : (key == name) = false := by
        rw [isChanged]
        exact beq_false_of_ne different
      rw [if_pos isChanged, lookup_cons, lookup_cons, other]
      exact ih
    · rw [if_neg isChanged, lookup_cons, lookup_cons, ih]

theorem lookup_append_single {added key : Str} (different : key ≠ added)
    (value : List Str) : (values ++ [(added, value)]).lookup key = values.lookup key := by
  induction values with
  | nil =>
    rw [nil_append, lookup_cons, beq_false_of_ne different]
  | cons entry values ih =>
    rw [cons_append, lookup_cons, lookup_cons, ih]

theorem lookup_merge_tag {entry : Str × List Str} {key : Str}
    (different : key ≠ entry.1) : (mergeTagCondition values entry).lookup key = values.lookup key := by
  unfold mergeTagCondition
  cases values.lookup entry.1 with
  | none => exact lookup_append_single different entry.2
  | some found => exact lookup_map_value different (· ++ entry.2)

theorem with_tags_agree (args : Args) (tags : List (Str × Str)) :
    AgreeOffTags args.conditions (args.withTags tags).conditions := by
  intro key ordinary
  unfold Args.withTags mergeObjectTagConditions objectTagConditions
  induction tags generalizing args with
  | nil => rfl
  | cons tag tags ih =>
    have different : key ≠ tagConditionKey tag.1 := by
      rintro rfl
      cases ordinary
    rw [map_cons, foldl_cons]
    have rest := ih { args with
      conditions := mergeTagCondition args.conditions (tagConditionKey tag.1, [tag.2]) }
    rw [← rest, lookup_merge_tag different]

theorem eq_of_slash_prefix {word name rest : Str} (wordWhole : Path.slash ∉ word)
    (nameWhole : Path.slash ∉ name) (starts : word ++ [Path.slash] <+: name ++ rest)
    (behind : rest = [] ∨ rest.head? = some Path.slash) : word = name := by
  induction word generalizing name with
  | nil =>
    cases name with
    | nil => rfl
    | cons byte name =>
      rw [nil_append, cons_append, cons_prefix_cons] at starts
      rw [← starts.1] at nameWhole
      exact absurd mem_cons_self nameWhole
  | cons first word ih =>
    cases name with
    | nil =>
      rcases behind with rfl | starting
      · cases prefix_nil.1 starts
      · obtain ⟨tail, same⟩ := starts
        rw [nil_append] at same
        rw [← same, cons_append, cons_append, head?_cons] at starting
        cases starting
        exact absurd mem_cons_self wordWhole
    | cons byte name =>
      rw [cons_append, cons_append, cons_prefix_cons] at starts
      rw [mem_cons, not_or] at wordWhole nameWhole
      rw [starts.1, ih wordWhole.2 nameWhole.2 starts.2]

theorem KeyName.name_whole (key : KeyName) : Path.slash ∉ key.name := by
  cases key with
  | aws key | jwt key | ldap key => cases key <;> decide
  | sts key | svc key =>
    cases key
    decide
  | s3 key => cases key <;> decide

theorem KeyName.tag_name {key : KeyName} (same : str "ExistingObjectTag" = key.name) :
    key = .s3 .s3ExistingObjectTag := by
  cases key with
  | aws key | jwt key | ldap key => cases key <;> exact absurd same (by decide)
  | sts key | svc key =>
    cases key
    exact absurd same (by decide)
  | s3 key => cases key <;> first | rfl | exact absurd same (by decide)

theorem KeyName.name_ordinary (key : KeyName) :
    (str "ExistingObjectTag/").isPrefixOf key.name = false := by
  rw [← Bool.not_eq_true, List.isPrefixOf_iff_prefix]
  intro starts
  apply key.name_whole
  apply starts.subset
  decide

theorem Key.map_key_ordinary {key : Key} (other : isExistingObjectTagConditionKey key.serialized = false) :
    (str "ExistingObjectTag/").isPrefixOf key.mapKey = false := by
  rw [← Bool.not_eq_true, List.isPrefixOf_iff_prefix]
  intro starts
  obtain ⟨name, variableText⟩ := key
  cases variableText with
  | none =>
    have ordinary := name.name_ordinary
    rw [← Bool.not_eq_true, List.isPrefixOf_iff_prefix] at ordinary
    exact ordinary starts
  | some rest =>
    have isTag : name = .s3 .s3ExistingObjectTag := by
      apply KeyName.tag_name
      apply eq_of_slash_prefix (by decide) name.name_whole _ (.inr _)
      · exact str "/" ++ rest
      · rw [← append_assoc]
        exact starts
      · rfl
    subst isTag
    cases other

theorem replace_common_empty (text : Str) : replaceCommonKeys [] text = text := by
  induction KeyName.commonKeys with
  | nil => rfl
  | cons key keys ih => exact ih

section Agreeing

variable {values others : ConditionValues} (agree : AgreeOffTags values others)

include agree

theorem first_value_agree (key : KeyName) : firstValue values key = firstValue others key := by
  unfold firstValue
  rw [agree key.name key.name_ordinary]

theorem replace_key_agree (text : Str) (key : KeyName) :
    replaceKey values text key = replaceKey others text key := by
  unfold replaceKey
  rw [first_value_agree agree]

theorem replace_common_agree (text : Str) :
    replaceCommonKeys values text = replaceCommonKeys others text := by
  have same : replaceKey values = replaceKey others := by
    funext text key
    exact replace_key_agree agree text key
  unfold replaceCommonKeys
  rw [same]

theorem replace_first_agree : replaceFirstKey values = replaceFirstKey others := by
  funext text
  have same : (fun key => (firstValue values key).isSome) = fun key => (firstValue others key).isSome := by
    funext key
    rw [first_value_agree agree]
  unfold replaceFirstKey
  rw [same]
  cases KeyName.commonKeys.find? fun key => (firstValue others key).isSome with
  | none => rfl
  | some key => exact replace_key_agree agree text key

omit agree in
theorem replace_unless_empty (values : ConditionValues) (text : Str) :
    (if values.isEmpty then text else replaceCommonKeys values text) = replaceCommonKeys values text := by
  cases values with
  | nil => exact (replace_common_empty text).symm
  | cons entry values => rfl

theorem resource_agree (fuel : Nat) (resource : Str) (resolver : Option Resolver) (self : Resource) :
    self.isMatchWithResolver fuel resource values resolver =
      self.isMatchWithResolver fuel resource others resolver := by
  have same : (fun pattern => Resource.acceptsPath resource
      (if values.isEmpty then pattern else replaceCommonKeys values pattern)) =
        fun pattern => Resource.acceptsPath resource
          (if others.isEmpty then pattern else replaceCommonKeys others pattern) := by
    funext pattern
    rw [replace_unless_empty, replace_unless_empty, replace_common_agree agree]
  unfold Resource.isMatchWithResolver
  rw [same]

theorem ResourceSet.resources_agree (fuel : Nat) (resource : Str) (resolver : Option Resolver)
    (resources : ResourceSet) :
    resources.isMatchWithResolver fuel resource values resolver =
      resources.isMatchWithResolver fuel resource others resolver :=
  any_m_congr fun self _ => resource_agree agree fuel resource resolver self

theorem Statement.reaches_agree (fuel : Nat) (args : Args) (resolver : Resolver)
    (statement : Statement) :
    statement.requestReachesConditionEval fuel { args with conditions := values } resolver =
      statement.requestReachesConditionEval fuel { args with conditions := others } resolver := by
  unfold Statement.requestReachesConditionEval Statement.kmsKeyScopeMatches
    Statement.resourceScopeMatches Statement.skipsResourceMatchForArgs
  simp only [ResourceSet.resources_agree agree]

theorem evaluate_key_agree {inner : FuncKeyValue (List Str)}
    (same : values.lookup inner.key.mapKey = others.lookup inner.key.mapKey) (parsers : Parsers)
    (fuel : Nat) (quantifier : Quantifier) (ignoreCase like negate : Bool)
    (resolver : Option Resolver) :
    StringFunc.evaluateKey parsers fuel quantifier ignoreCase like negate values resolver inner =
      StringFunc.evaluateKey parsers fuel quantifier ignoreCase like negate others resolver inner := by
  unfold StringFunc.evaluateKey StringFunc.evalLike StringFunc.eval StringFunc.patterns
  rw [same, replace_first_agree agree]

omit agree in
theorem address_agree {func : AddrFunc}
    (same : ∀ inner ∈ func, values.lookup inner.key.mapKey = others.lookup inner.key.mapKey)
    (parsers : Parsers) : func.evaluate parsers values = func.evaluate parsers others := by
  induction func with
  | nil => rfl
  | cons inner func ih =>
    rw [forall_mem_cons] at same
    rw [AddrFunc.evaluate, AddrFunc.evaluate, same.1, ih same.2]

omit agree in
theorem number_agree {func : NumberFunc}
    (same : ∀ inner ∈ func, values.lookup inner.key.mapKey = others.lookup inner.key.mapKey)
    (op : Int → Int → Bool) (ifExists : Bool) :
    func.evaluate op ifExists values = func.evaluate op ifExists others := by
  induction func with
  | nil => rfl
  | cons inner func ih =>
    rw [forall_mem_cons] at same
    rw [NumberFunc.evaluate, NumberFunc.evaluate, FuncKeyValue.first, FuncKeyValue.first, same.1,
      ih same.2]

omit agree in
theorem InnerFunc.key_names_eq {α : Type} (func : InnerFunc α) :
    func.keyNames = func.keys.map Key.mapKey := by
  unfold InnerFunc.keyNames InnerFunc.keys
  rw [map_map]
  rfl

omit agree in
theorem Condition.key_names_eq (condition : Condition) : condition.keyNames = condition.keys.map Key.mapKey := by
  induction condition with
  | string operator func => exact func.key_names_eq
  | binaryEquals func => exact func.key_names_eq
  | address operator func => exact func.key_names_eq
  | bool operator func | number operator func | date operator func => exact func.key_names_eq
  | ifExists inner ih => exact ih

theorem lookup_agree {α : Type} {func : InnerFunc α}
    (ordinary : ∀ key ∈ func.keys, isExistingObjectTagConditionKey key.serialized = false) :
    ∀ inner ∈ func, values.lookup inner.key.mapKey = others.lookup inner.key.mapKey := by
  intro inner member
  exact agree _ (Key.map_key_ordinary (ordinary inner.key (mem_map_of_mem member)))

theorem condition_agree {condition : Condition}
    (ordinary : ∀ key ∈ condition.keys, isExistingObjectTagConditionKey key.serialized = false)
    (parsers : Parsers) (fuel : Nat) (quantifier : Quantifier) (resolver : Option Resolver) :
    condition.evaluateWithResolver parsers fuel quantifier values resolver =
      condition.evaluateWithResolver parsers fuel quantifier others resolver := by
  induction condition with
  | string operator func =>
    have same := lookup_agree agree ordinary
    exact all_m_congr fun inner member => evaluate_key_agree agree (same inner member) ..
  | binaryEquals func =>
    have same := lookup_agree agree ordinary
    unfold Condition.evaluateWithResolver BinaryFunc.evaluate
    rw [← all_m_some, ← all_m_some]
    apply all_m_congr
    intro inner member
    unfold BinaryFunc.evaluateKey
    rw [same inner member]
  | address operator func =>
    unfold Condition.evaluateWithResolver
    rw [address_agree (lookup_agree agree ordinary)]
  | bool operator func =>
    have same := lookup_agree agree ordinary
    cases operator with
    | null =>
      unfold Condition.evaluateWithResolver BoolFunc.evaluateNull
      rw [← all_m_some, ← all_m_some]
      apply all_m_congr
      intro inner member
      rw [same inner member]
    | bool =>
      unfold Condition.evaluateWithResolver BoolFunc.evaluateBool FuncKeyValue.first
      rw [← all_m_some, ← all_m_some]
      apply all_m_congr
      intro inner member
      rw [same inner member]
  | number operator func =>
    unfold Condition.evaluateWithResolver
    rw [number_agree (lookup_agree agree ordinary)]
  | date operator func =>
    have same := lookup_agree agree ordinary
    unfold Condition.evaluateWithResolver DateFunc.evaluate FuncKeyValue.first
    rw [← all_m_some, ← all_m_some]
    apply all_m_congr
    intro inner member
    rw [same inner member]
  | ifExists inner ih =>
    have present : inner.hasAnyKeyIn values = inner.hasAnyKeyIn others := by
      unfold Condition.hasAnyKeyIn
      rw [inner.key_names_eq, any_map, any_map, Bool.eq_iff_iff, any_eq_true, any_eq_true]
      apply exists_congr
      intro key
      apply and_congr_right
      intro member
      dsimp only [Function.comp_apply]
      rw [agree _ (Key.map_key_ordinary (ordinary key member))]
    unfold Condition.evaluateWithResolver
    rw [present, ih ordinary]

theorem functions_agree {functions : Functions}
    (ordinary : functionsUseExistingObjectTag functions = false) (parsers : Parsers) (fuel : Nat)
    (resolver : Option Resolver) :
    functions.evaluateWithResolver parsers fuel values resolver =
      functions.evaluateWithResolver parsers fuel others resolver := by
  unfold functionsUseExistingObjectTag at ordinary
  simp only [any_eq_false, Bool.not_eq_true] at ordinary
  exact all_m_congr fun entry member => condition_agree agree (ordinary entry member) ..

end Agreeing

/-- The statement asks for no tag, or the request does not reach its conditions. -/
def Statement.IgnoresTags (clock : Clock) (args : Args) (statement : Statement) : Prop :=
  functionsUseExistingObjectTag statement.conditions = true →
    ∀ fuel, statement.requestReachesConditionEval fuel args
      ((variableResolverForPolicyArgs args).resolveMultiple clock) ≠ some true

section Tags

variable {clock : Clock} {args : Args}

theorem Statement.check_with_tags {statement : Statement} (ignores : statement.IgnoresTags clock args)
    (parsers : Parsers) (fuel : Nat) (tags : List (Str × Str)) :
    statement.check parsers clock fuel (args.withTags tags) =
      statement.check parsers clock fuel args := by
  have agree := with_tags_agree args tags
  have reached : ∀ resolver,
      statement.requestReachesConditionEval fuel (args.withTags tags) resolver =
        statement.requestReachesConditionEval fuel args resolver :=
    fun resolver => (Statement.reaches_agree agree fuel args resolver statement).symm
  have resolved : variableResolverForPolicyArgs (args.withTags tags) =
      variableResolverForPolicyArgs args := rfl
  unfold Statement.check
  rw [resolved]
  dsimp only
  rw [reached]
  cases uses : functionsUseExistingObjectTag statement.conditions with
  | false => rw [functions_agree agree uses]
  | true =>
    cases answer : statement.requestReachesConditionEval fuel args
        ((variableResolverForPolicyArgs args).resolveMultiple clock) with
    | none => rfl
    | some reaches =>
      cases reaches with
      | false => rfl
      | true => exact absurd answer (ignores uses fuel)

/-- The statements that the evaluation of a policy comes to. It tries the denials up to the first
that denies and, where none does, the allowances up to the first that allows. -/
inductive Evaluates (parsers : Parsers) (clock : Clock) (fuel : Nat) (args : Args)
    (policy : Policy) (statement : Statement) : Prop
  | denial (tried : Tried (Statement.isAllowed parsers clock fuel args) true
      (policy.statements.filter (·.effect = .deny)) statement)
  | allowance (undenied : (policy.statements.filter (·.effect = .deny)).allM
        (Statement.isAllowed parsers clock fuel args) = some true)
      (full : args.denyOnly = false) (foreign : args.isOwner = false)
      (tried : Tried (Statement.isAllowed parsers clock fuel args) false
        (policy.statements.filter (·.effect = .allow)) statement)

theorem Evaluates.mem {parsers : Parsers} {fuel : Nat} {policy : Policy} {statement : Statement}
    (evaluated : Evaluates parsers clock fuel args policy statement) : statement ∈ policy.statements := by
  cases evaluated with
  | denial tried => exact mem_of_mem_filter tried.mem
  | allowance undenied full foreign tried => exact mem_of_mem_filter tried.mem

theorem evaluated_with_tags {policy : Policy} {parsers : Parsers} {fuel : Nat}
    (ignores : ∀ statement, Evaluates parsers clock fuel args policy statement →
      statement.IgnoresTags clock args) (tags : List (Str × Str)) :
    policy.isAllowed parsers clock fuel (args.withTags tags) =
      policy.isAllowed parsers clock fuel args := by
  have same : ∀ statement, Evaluates parsers clock fuel args policy statement →
      statement.isAllowed parsers clock fuel args =
        statement.isAllowed parsers clock fuel (args.withTags tags) := by
    intro statement evaluated
    unfold Statement.isAllowed
    rw [Statement.check_with_tags (ignores statement evaluated)]
  unfold Policy.isAllowed
  rw [← all_m_tried fun statement tried => same statement (.denial tried)]
  have owned : (args.withTags tags).isOwner = args.isOwner := rfl
  have only : (args.withTags tags).denyOnly = args.denyOnly := rfl
  rw [owned, only]
  cases denied : (policy.statements.filter (·.effect = .deny)).allM
      (Statement.isAllowed parsers clock fuel args) with
  | none => rfl
  | some undenied =>
    cases undenied with
    | false => rfl
    | true =>
      cases full : args.denyOnly with
      | true => rfl
      | false =>
        cases foreign : args.isOwner with
        | true => rfl
        | false =>
          rw [any_m_tried fun statement tried =>
            same statement (.allowance denied full foreign tried)]

theorem policy_with_tags {policy : Policy}
    (ignores : ∀ statement ∈ policy.statements, statement.IgnoresTags clock args) (parsers : Parsers)
    (fuel : Nat) (tags : List (Str × Str)) :
    policy.isAllowed parsers clock fuel (args.withTags tags) =
      policy.isAllowed parsers clock fuel args :=
  evaluated_with_tags (fun statement evaluated => ignores statement evaluated.mem) tags

theorem ignores_of_unneeded {policy : Policy} {fuel : Nat}
    (unneeded : policyNeedsExistingObjectTagForArgs clock fuel policy args = some false) :
    ∀ statement ∈ policy.statements, statement.IgnoresTags clock args := by
  intro statement member uses other reached
  unfold policyNeedsExistingObjectTagForArgs at unneeded
  have used : policyUsesExistingObjectTagConditions policy = true :=
    any_eq_true.2 ⟨statement, member, uses⟩
  rw [used, if_neg (by simp)] at unneeded
  have missed := any_m_false.1 unneeded statement member
  rw [uses, if_neg (by simp)] at missed
  have more := Statement.reaches_mono (Nat.le_max_left fuel other) missed
  rw [Statement.reaches_mono (Nat.le_max_right fuel other) reached] at more
  cases more

end Tags

/-- `Functions::evaluate`: there is no resolver. -/
def Functions.evaluate (parsers : Parsers) (values : ConditionValues) (functions : Functions) : Bool :=
  (functions.evaluateWithResolver parsers 0 values none).getD false

structure Principal where
  aws : List Str
  service : List Str
  deriving DecidableEq

/-- `is_simple_match` of every name. -/
def Principal.isMatch (self : Principal) (principal : Str) : Bool :=
  self.aws.any (fun pattern => innerMatch pattern principal true) ||
    self.service.any fun pattern => innerMatch pattern principal true

structure BucketPolicyArgs where
  account : Str
  action : Action
  bucket : Str
  conditions : ConditionValues
  isOwner : Bool
  object : Str

structure BPStatement where
  effect : Effect
  principal : Principal
  actions : ActionSet
  notActions : ActionSet
  resources : ResourceSet
  notResources : ResourceSet
  conditions : Functions

namespace BPStatement

def requestReachesConditionEval (args : BucketPolicyArgs) (statement : BPStatement) : Bool :=
  -- A statement about KMS keys only has no effect on the traffic of a bucket.
  if !statement.actions.isEmpty && statement.actions.all Action.isKms then false
  else if !statement.principal.isMatch args.account then false
  else if !statement.actions.statementCovers statement.notActions args.action
      (statement.effect = .deny) then false
  else
    let resource := buildResource args.action args.bucket args.object
      (statement.conditions.referencesKeyName (.s3 .s3Prefix))
    if !statement.resources.isEmpty && !statement.resources.any (·.isMatch resource args.conditions)
    then false
    else if !statement.notResources.isEmpty &&
        statement.notResources.any (·.isMatch resource args.conditions) then false
    else true

def isAllowed (parsers : Parsers) (args : BucketPolicyArgs) (statement : BPStatement) : Bool :=
  statement.effect.isAllowed
    (statement.requestReachesConditionEval args && statement.conditions.evaluate parsers args.conditions)

end BPStatement

structure BucketPolicy where
  version : Str
  statements : List BPStatement

namespace BucketPolicy

def isAllowed (parsers : Parsers) (args : BucketPolicyArgs) (policy : BucketPolicy) : Bool :=
  if !(policy.statements.filter (·.effect = .deny)).all (BPStatement.isAllowed parsers args) then false
  else if args.isOwner then true
  else (policy.statements.filter (·.effect = .allow)).any (BPStatement.isAllowed parsers args)

def usesExistingObjectTagConditions (policy : BucketPolicy) : Bool :=
  policy.statements.any fun statement => functionsUseExistingObjectTag statement.conditions

def needsExistingObjectTagForArgs (args : BucketPolicyArgs) (policy : BucketPolicy) : Bool :=
  if !policy.usesExistingObjectTagConditions then false
  else policy.statements.any fun statement =>
    functionsUseExistingObjectTag statement.conditions && statement.requestReachesConditionEval args

end BucketPolicy

inductive StorageError
  | configNotFound
  | bucketNotFound
  | other (message : String)
  deriving DecidableEq

/-- `PolicySys::is_allowed_with_policy`: without a policy the owner alone is allowed. -/
def isAllowedWithPolicy (parsers : Parsers) (args : BucketPolicyArgs)
    (policy : Except StorageError BucketPolicy) : Except StorageError Bool :=
  match policy with
  | .ok policy => .ok (policy.isAllowed parsers args)
  | .error .configNotFound => .ok args.isOwner
  | .error error => .error error

end Rustfs.Policy
