import Rustfs.Filemeta.FileInfo
import Rustfs.Library.Lists
import Rustfs.Library.Outcome
import Mathlib.Data.List.DropRight
import Mathlib.Data.Prod.Lex
import Mathlib.Data.String.Basic

/-!
# Replication rules: targets and merges

The rules of `replication/src/config.rs` as they are filtered, sorted and applied to an object.
The decisions of a batch are those that each target gets on its own. Tags are parsed by a
parameter.

The merges of `replication/src/config.rs` keep the operator rules of one side and the rules that
the site reconciler derived on the other. Only the latter are renumbered. Fields of a destination
that no merge reads, and the texts of the structure errors, are left out.
-/

namespace Rustfs.Replication

open List Library Library.Lists
open Filemeta (trimMatches)

structure Tag where
  key : Option String
  value : Option String
  deriving DecidableEq

structure ReplicationRuleAndOperator where
  rulePrefix : Option String
  tags : Option (List Tag)
  deriving DecidableEq

structure ReplicationRuleFilter where
  and : Option ReplicationRuleAndOperator
  rulePrefix : Option String
  tag : Option Tag
  deriving DecidableEq

/-- Statuses are their texts; one that is absent is `none`. The replica modifications are those of
the source selection criteria. -/
structure ReplicationRule where
  id : Option String
  priority : Option Int
  status : String
  destinationBucket : String
  filter : Option ReplicationRuleFilter
  rulePrefix : Option String
  existingObjectReplication : Option String
  deleteReplication : Option String
  deleteMarkerReplication : Option String
  replicaModifications : Option String
  deriving DecidableEq

structure ReplicationConfiguration where
  role : String
  rules : List ReplicationRule
  deriving DecidableEq

inductive ReplicationType where
  | unset | object | delete | metadata | heal | existingObject | resync | all
  deriving DecidableEq

structure ObjectOpts where
  name : String
  userTags : String
  versionId : Option (BitVec 128)
  opType : ReplicationType
  replica : Bool
  existingObject : Bool
  targetArn : String

def trim (text : String) : String := trimMatches isWhitespace text

theorem trim_trim (text : String) : trim (trim text) = trim text := by
  let front := text.toList.dropWhile isWhitespace
  let core := front.rdropWhile isWhitespace
  have starts : core.dropWhile isWhitespace = core := by
    cases isCore : core with
    | nil => rfl
    | cons first rest =>
      obtain ⟨more, whole⟩ : core <+: front := rdropWhile_prefix isWhitespace front
      have head : front.head? = some first := by rw [← whole, isCore]; rfl
      have kept : isWhitespace first = false := by
        have stays := head?_dropWhile_not isWhitespace text.toList
        rw [show (text.toList.dropWhile isWhitespace).head? = some first from head] at stays
        exact stays
      exact dropWhile_cons_of_neg (by rw [kept]; decide)
  have ends : core.rdropWhile isWhitespace = core := rdropWhile_idempotent isWhitespace front
  change String.ofList (((String.ofList core).toList.dropWhile isWhitespace).rdropWhile
    isWhitespace) = String.ofList core
  rw [String.toList_ofList, starts, ends]

def ReplicationRule.keyPrefix (rule : ReplicationRule) : String :=
  match rule.filter with
  | some filter =>
    match filter.rulePrefix with
    | some rulePrefix => rulePrefix
    | none => (filter.and.bind (·.rulePrefix)).getD ""
  | none => rule.rulePrefix.getD ""

def ReplicationRule.metadataReplicate (rule : ReplicationRule) (obj : ObjectOpts) : Bool :=
  !obj.replica || rule.replicaModifications = some "Enabled"

def ruleReplicates (rule : ReplicationRule) (obj : ObjectOpts) : Bool :=
  if rule.existingObjectReplication = some "Disabled" ∧ obj.existingObject then false
  else if obj.opType ≠ .delete then rule.metadataReplicate obj
  else if !rule.metadataReplicate obj then false
  else if obj.versionId.isSome then rule.deleteReplication = some "Enabled"
  else rule.deleteMarkerReplication = some "Enabled"

def tagMatches (objectTags : String → Option String) (tag : Tag) : Bool :=
  match tag.key, tag.value with
  | none, none => true
  | some key, value => key = "" || (value.isSome && objectTags key = value)
  | none, some _ => false

def replicationFilterTagsMatch (filter : ReplicationRuleFilter)
    (objectTags : String → Option String) : Bool :=
  ((filter.and.bind (·.tags)).getD [] ++ filter.tag.toList).all (tagMatches objectTags)

/-- A later pair of a key replaces an earlier one. -/
def decodeTagsToMap (parse : String → List (String × String)) (tags : String) :
    String → Option String :=
  fun key => ((parse tags).filter (·.1 ≠ "")).reverse.lookup key

section

variable (parse : String → List (String × String)) (config : ReplicationConfiguration)
  (obj : ObjectOpts)

/-- The rule applies to the object, whatever its target. -/
def ReplicationRule.actsOn (rule : ReplicationRule) : Bool :=
  rule.status ≠ "Disabled" &&
    ((obj.opType = .resync || obj.opType = .all) ||
      (!(rule.existingObjectReplication = some "Disabled" && obj.existingObject) &&
        rule.keyPrefix.toList.isPrefixOf obj.name.toList &&
        rule.filter.all fun filter =>
          replicationFilterTagsMatch filter (decodeTagsToMap parse obj.userTags)))

def ReplicationConfiguration.targets (rule : ReplicationRule) : Bool :=
  obj.targetArn = "" || trim rule.destinationBucket = trim obj.targetArn ||
    trim config.role = trim obj.targetArn

/-- Options are in order with the absent one first. -/
def ReplicationRule.rank (rule : ReplicationRule) : Lex (Nat × Int) :=
  toLex (rule.priority.elim 0 fun _ => 1, rule.priority.getD 0)

/-- The highest priority first, then by destination and id. -/
def ReplicationRule.sortKey (rule : ReplicationRule) :
    Lex ((Lex (Nat × Int))ᵒᵈ × Lex (String × Lex (Nat × String))) :=
  toLex (OrderDual.toDual rule.rank,
    toLex (rule.destinationBucket, toLex (rule.id.elim 0 fun _ => 1, rule.id.getD "")))

/-- The sort is stable. -/
def ReplicationConfiguration.filterActionableRules : List ReplicationRule :=
  if obj.name = "" ∧ obj.opType ≠ .resync ∧ obj.opType ≠ .all then []
  else (config.rules.filter fun rule => config.targets obj rule && rule.actsOn parse obj).insertionSort
    fun one two => one.sortKey ≤ two.sortKey

def ReplicationConfiguration.replicate : Bool :=
  (config.filterActionableRules parse obj).head?.any (ruleReplicates · obj)

def addArn (arns : List String) (rule : ReplicationRule) : List String :=
  let arn := trim rule.destinationBucket
  if rule.status = "Disabled" ∨ arn = "" ∨ arn ∈ arns then arns else arns ++ [arn]

def ReplicationConfiguration.filterTargetArns : List String :=
  if trim config.role ≠ "" then [trim config.role]
  else (config.filterActionableRules parse obj).foldl addArn []

def keepHighest (selected : Option ReplicationRule) (rule : ReplicationRule) :
    Option ReplicationRule :=
  if selected.all fun current => rule.rank > current.rank then some rule else selected

def selectRule (selected : List (String × ReplicationRule)) (rule : ReplicationRule) :
    List (String × ReplicationRule) :=
  let arn := trim rule.destinationBucket
  if arn = "" then selected
  else if arn ∈ selected.map Prod.fst then
    selected.map fun pair => if pair.1 = arn ∧ rule.rank > pair.2.rank then (pair.1, rule) else pair
  else selected ++ [(arn, rule)]

def ReplicationConfiguration.filterTargetReplicationDecisions : List (String × Bool) :=
  let rules := config.filterActionableRules parse obj
  if trim config.role ≠ "" then
    [(trim config.role, (rules.foldl keepHighest none).any (ruleReplicates · obj))]
  else (rules.foldl selectRule []).map fun (arn, rule) => (arn, ruleReplicates rule obj)

end

variable {rule : ReplicationRule}

section

variable {parse : String → List (String × String)} {config : ReplicationConfiguration}
  {obj : ObjectOpts} {done rest : List ReplicationRule} {arns : List String}
  {selected : List (String × ReplicationRule)}

theorem actionable_for (anyTarget : obj.targetArn = "") {arn : String} (named : arn ≠ "") :
    config.filterActionableRules parse { obj with targetArn := arn } =
      (config.filterActionableRules parse obj).filter fun rule =>
        trim rule.destinationBucket = trim arn || trim config.role = trim arn := by
  unfold ReplicationConfiguration.filterActionableRules
  split
  · rfl
  · rw [filter_insertion_sort, filter_filter]
    congr 1
    apply filter_congr
    intro rule _
    unfold ReplicationConfiguration.targets
    simp [anyTarget, named]
    rfl

theorem actionable_sorted :
    (config.filterActionableRules parse obj).Pairwise fun one two => two.rank ≤ one.rank := by
  unfold ReplicationConfiguration.filterActionableRules
  split
  · exact List.Pairwise.nil
  · apply (pairwise_insertionSort _ _).imp
    intro one two ordered
    rcases Prod.Lex.toLex_le_toLex.1 ordered with less | ⟨same, _⟩
    · exact (OrderDual.toDual_lt_toDual.1 less).le
    · exact (OrderDual.toDual_inj.1 same).ge

theorem actionable_enabled
    (member : rule ∈ config.filterActionableRules parse obj) : rule.status ≠ "Disabled" := by
  unfold ReplicationConfiguration.filterActionableRules at member
  split at member
  · cases member
  · rw [mem_insertionSort, mem_filter, Bool.and_eq_true] at member
    have acts := member.2.2
    unfold ReplicationRule.actsOn at acts
    rw [Bool.and_eq_true, decide_eq_true_eq] at acts
    exact acts.1

/-- The targets of the rules so far, each with its first rule. -/
structure Chosen (done : List ReplicationRule) (arns : List String)
    (selected : List (String × ReplicationRule)) : Prop where
  same : selected.map Prod.fst = arns
  first : ∀ pair ∈ selected,
    done.find? (fun rule => trim rule.destinationBucket = pair.1) = some pair.2
  all : ∀ rule ∈ done, trim rule.destinationBucket ≠ "" → trim rule.destinationBucket ∈ arns
  named : ∀ arn ∈ arns, arn ≠ "" ∧ trim arn = arn

theorem Chosen.next (chosen : Chosen done arns selected)
    (enabled : rule.status ≠ "Disabled") (lower : ∀ other ∈ done, rule.rank ≤ other.rank) :
    Chosen (done ++ [rule]) (addArn arns rule) (selectRule selected rule) := by
  obtain ⟨same, first, all, named⟩ := chosen
  have kept : ∀ pair ∈ selected, (done ++ [rule]).find?
      (fun rule => trim rule.destinationBucket = pair.1) = some pair.2 := by
    intro pair member
    rw [find?_append, first pair member]
    rfl
  unfold addArn selectRule
  rw [same]
  by_cases unnamed : trim rule.destinationBucket = ""
  · rw [if_pos (.inr (.inl unnamed)), if_pos unnamed]
    refine ⟨same, kept, ?_, named⟩
    intro other member isNamed
    rcases mem_append.1 member with before | last
    · exact all other before isNamed
    · rw [mem_singleton.1 last] at isNamed
      exact absurd unnamed isNamed
  rw [if_neg unnamed]
  by_cases known : trim rule.destinationBucket ∈ arns
  · have unchanged : (selected.map fun pair => if pair.1 = trim rule.destinationBucket ∧
        rule.rank > pair.2.rank then (pair.1, rule) else pair) = selected := by
      conv_rhs => rw [← map_id selected]
      apply map_congr_left
      intro pair member
      have earlier := mem_of_find?_eq_some (first pair member)
      rw [if_neg fun higher => absurd (lower _ earlier) (not_le_of_gt higher.2)]
      rfl
    rw [if_pos (.inr (.inr known)), if_pos known, unchanged]
    refine ⟨same, kept, ?_, named⟩
    intro other member isNamed
    rcases mem_append.1 member with before | last
    · exact all other before isNamed
    · rwa [mem_singleton.1 last]
  · rw [if_neg (by simp [enabled, unnamed, known]), if_neg known]
    refine ⟨by rw [map_append, same]; rfl, ?_, ?_, ?_⟩
    · intro pair member
      rcases mem_append.1 member with before | last
      · exact kept pair before
      · rw [mem_singleton.1 last, find?_append, find?_eq_none.2]
        · simp
        · intro other member isArn
          replace isArn : trim other.destinationBucket = trim rule.destinationBucket :=
            of_decide_eq_true isArn
          rw [← isArn] at known unnamed
          exact known (all other member unnamed)
    · intro other member isNamed
      rcases mem_append.1 member with before | last
      · exact mem_append_left _ (all other before isNamed)
      · rw [mem_singleton.1 last]
        exact mem_append_right _ mem_cons_self
    · intro arn member
      rcases mem_append.1 member with before | last
      · exact named arn before
      · rw [mem_singleton.1 last]
        exact ⟨unnamed, trim_trim _⟩

theorem Chosen.run (chosen : Chosen done arns selected)
    (enabled : ∀ rule ∈ rest, rule.status ≠ "Disabled")
    (sorted : (done ++ rest).Pairwise fun one two => two.rank ≤ one.rank) :
    Chosen (done ++ rest) (rest.foldl addArn arns) (rest.foldl selectRule selected) := by
  induction rest generalizing done arns selected with
  | nil => rwa [append_nil]
  | cons rule rest ih =>
    have lower : ∀ other ∈ done, rule.rank ≤ other.rank := fun other member =>
      (pairwise_append.1 sorted).2.2 other member rule mem_cons_self
    rw [append_cons] at sorted ⊢
    exact ih (chosen.next (enabled rule mem_cons_self) lower)
      (fun other member => enabled other (mem_cons_of_mem _ member)) sorted

theorem keep_highest_first {best : ReplicationRule} (higher : ∀ rule ∈ rest, rule.rank ≤ best.rank) :
    rest.foldl keepHighest (some best) = some best := by
  induction rest with
  | nil => rfl
  | cons rule rest ih =>
    have stays : keepHighest (some best) rule = some best :=
      if_neg (by simpa using higher rule mem_cons_self)
    rw [foldl_cons, stays]
    exact ih fun other member => higher other (mem_cons_of_mem _ member)

theorem keep_highest_head (sorted : rest.Pairwise fun one two => two.rank ≤ one.rank) :
    rest.foldl keepHighest none = rest.head? := by
  cases rest with
  | nil => rfl
  | cons rule rest => exact keep_highest_first (pairwise_cons.1 sorted).1

end

/-- The batch decides for every target what the target's own replication decides. The targets come
in the order in which the rules first name them. -/
theorem batched_decisions (parse : String → List (String × String))
    (config : ReplicationConfiguration) (obj : ObjectOpts) (anyTarget : obj.targetArn = "") :
    config.filterTargetReplicationDecisions parse obj =
      (config.filterTargetArns parse obj).map fun arn =>
        (arn, config.replicate parse { obj with targetArn := arn }) := by
  unfold ReplicationConfiguration.filterTargetReplicationDecisions
    ReplicationConfiguration.filterTargetArns ReplicationConfiguration.replicate
  dsimp only
  split
  next named =>
    rw [map_singleton, keep_highest_head actionable_sorted, actionable_for anyTarget named]
    simp only [trim_trim, decide_true, Bool.or_true, filter_true]
    rfl
  next role =>
    rw [not_not] at role
    have start : Chosen [] [] [] := by constructor <;> simp
    obtain ⟨same, first, _, named⟩ := start.run
      (fun rule member => actionable_enabled member) (@actionable_sorted parse config obj)
    rw [← same, map_map]
    apply map_congr_left
    intro pair member
    have isArn := named pair.1 (same ▸ mem_map_of_mem member)
    have found := first pair member
    rw [nil_append] at found
    simp only [Function.comp_apply, Prod.mk.injEq, true_and]
    rw [actionable_for anyTarget isArn.1, head?_filter]
    simp only [role, isArn.2, isArn.1.symm, decide_false, Bool.or_false]
    rw [found]
    rfl

def sampleReplicationRule (id : String) (priority : Int) : ReplicationRule :=
  ⟨some id, some priority, "Enabled", " arn:target ", none, none, none, none, none, none⟩

/-- Two rules for one target; the one with the higher priority does not replicate deletes. -/
def sampleReplication : ReplicationConfiguration :=
  ⟨"", [{ sampleReplicationRule "low" 1 with deleteMarkerReplication := some "Enabled" },
    sampleReplicationRule "high" 2]⟩

def sampleReplicatedDelete : ObjectOpts := ⟨"name", "", none, .delete, false, false, ""⟩

theorem sample_decisions_agree :
    sampleReplication.filterTargetReplicationDecisions (fun _ => []) sampleReplicatedDelete =
        [("arn:target", false)] ∧
      sampleReplication.filterTargetReplicationDecisions (fun _ => []) sampleReplicatedDelete =
        (sampleReplication.filterTargetArns (fun _ => []) sampleReplicatedDelete).map fun arn =>
          (arn, sampleReplication.replicate (fun _ => [])
            { sampleReplicatedDelete with targetArn := arn }) :=
  ⟨by decide, batched_decisions (fun _ => []) sampleReplication sampleReplicatedDelete rfl⟩

def replicationTargetArnDeploymentId (arn : String) : Option String :=
  match (arn.toList.splitOn ':').map String.ofList with
  | [scheme, vendor, service, _, deploymentId, _] =>
    if scheme = "arn" ∧ (vendor = "rustfs" ∨ vendor = "minio") ∧ service = "replication" ∧
        deploymentId ≠ "" then
      some deploymentId
    else none
  | _ => none

/-- What follows `site-repl-` in the id of the rule. -/
def ReplicationRule.siteId (rule : ReplicationRule) : Option String :=
  rule.id.bind fun id =>
    if "site-repl-".toList.isPrefixOf id.toList then some (String.ofList (id.toList.drop 10)) else none

def isSiteReplicationRule (rule : ReplicationRule) : Bool := rule.siteId.isSome

def siteReplicationRuleDeploymentId (rule : ReplicationRule) : Option String :=
  rule.siteId.filter fun deploymentId => deploymentId ≠ "" &&
    replicationTargetArnDeploymentId rule.destinationBucket = some deploymentId

def isReconcilerOwnedSiteReplicationRule (deploymentIds : List String) (rule : ReplicationRule) :
    Bool :=
  (siteReplicationRuleDeploymentId rule).any (· ∈ deploymentIds)

def isSiteReplicationRole (deploymentIds : List String) (role : String) : Bool :=
  (replicationTargetArnDeploymentId role).any (· ∈ deploymentIds)

inductive OperatorRuleContract where
  | derived
  | legacy

def i32Max : Int := 2 ^ 31 - 1

/-- The first number from `next` on that is not taken; it is at most so many steps away. -/
def nextFree (taken : List Int) : Nat → Int → Int
  | 0, next => next
  | steps + 1, next => if next ∈ taken then nextFree taken steps (next + 1) else next

def assignFrom (isSiteRule : ReplicationRule → Bool) (taken : List Int) :
    Int → List ReplicationRule → List ReplicationRule
  | _, [] => []
  | next, rule :: rules =>
    if isSiteRule rule then
      let free := nextFree taken taken.length next
      { rule with priority := some free } ::
        assignFrom isSiteRule taken (min (free + 1) i32Max) rules
    else rule :: assignFrom isSiteRule taken next rules

def ReplicationRule.number (rule : ReplicationRule) : Int := rule.priority.getD 0

def assignSiteReplicationRulePriorities (isSiteRule : ReplicationRule → Bool)
    (rules : List ReplicationRule) : List ReplicationRule :=
  assignFrom isSiteRule ((rules.filter (!isSiteRule ·)).map (·.number)) 1 rules

def rulesOf (config : Option ReplicationConfiguration) : List ReplicationRule :=
  config.elim [] (·.rules)

section

variable (incoming localConfig : Option ReplicationConfiguration) (deploymentIds : List String)
  (contract : OperatorRuleContract)

def mergeReplicationConfigKeepingSiteRules : Option ReplicationConfiguration :=
  let isSiteRule := match contract with
    | .derived => isReconcilerOwnedSiteReplicationRule deploymentIds
    | .legacy => isSiteReplicationRule
  let incomingRole := incoming.elim "" (·.role)
  let rules := (rulesOf incoming).filter (!isSiteRule ·) ++ (rulesOf localConfig).filter isSiteRule
  if rules = [] then none
  else match contract with
    | .derived => some
        ⟨if isSiteReplicationRole deploymentIds incomingRole then "" else incomingRole,
          assignSiteReplicationRulePriorities isSiteRule rules⟩
    | .legacy => some
        ⟨if (replicationTargetArnDeploymentId incomingRole).isSome then "" else incomingRole,
          rules.zipIdx.map fun (rule, index) =>
            { rule with priority := some (min (index + 1) i32Max) }⟩

def mergeIncomingReplicationConfig : Option ReplicationConfiguration :=
  mergeReplicationConfigKeepingSiteRules incoming localConfig deploymentIds contract

def mergeUserReplicationConfig : Option ReplicationConfiguration :=
  let incoming := incoming.map fun config => match contract with
    | .derived => { config with
        rules := config.rules.filter fun rule => !rule.siteId.any (· ∈ deploymentIds) }
    | .legacy => { config with
        rules := config.rules.insertionSort fun one two => one.number ≤ two.number }
  mergeReplicationConfigKeepingSiteRules incoming localConfig deploymentIds contract

end

inductive ReplicationConfigStructureError where
  | noRules
  | tooManyRules
  | negativeRulePriority
  | duplicateRulePriority
  | ruleIdTooLong
  | ambiguousRuleFilter
  | tagFilterWithDeleteMarkerReplication

def ReplicationRule.checkShape (rule : ReplicationRule) :
    Except ReplicationConfigStructureError Unit :=
  if rule.id.any (·.utf8ByteSize > 255) then .error .ruleIdTooLong
  else match rule.filter with
    | none => .ok ()
    | some filter =>
      let hasAnd := filter.and.any fun and =>
        and.rulePrefix.any (· ≠ "") || and.tags.any (!·.isEmpty)
      let hasPrefix := filter.rulePrefix.any (· ≠ "")
      let hasTag := filter.tag.any fun tag => tag.key.any (· ≠ "")
      if hasAnd.toNat + hasPrefix.toNat + hasTag.toNat > 1 then .error .ambiguousRuleFilter
      else if rule.deleteMarkerReplication = some "Enabled" ∧ hasTag then
        .error .tagFilterWithDeleteMarkerReplication
      else .ok ()

def validateRules (priorities : List Int) :
    List ReplicationRule → Except ReplicationConfigStructureError Unit
  | [] => .ok ()
  | rule :: rules =>
    if rule.number < 0 then .error .negativeRulePriority
    else if rule.number ∈ priorities then .error .duplicateRulePriority
    else do
      rule.checkShape
      validateRules (rule.number :: priorities) rules

def validateReplicationConfigStructure (config : ReplicationConfiguration) :
    Except ReplicationConfigStructureError Unit :=
  if config.rules = [] then .error .noRules
  else if config.rules.length > 1000 then .error .tooManyRules
  else validateRules [] config.rules

theorem validate_rules_ok {priorities : List Int} {rules : List ReplicationRule} :
    validateRules priorities rules = .ok () ↔
      (∀ rule ∈ rules, 0 ≤ rule.number ∧ rule.number ∉ priorities ∧ rule.checkShape = .ok ()) ∧
        (rules.map (·.number)).Nodup := by
  induction rules generalizing priorities with
  | nil => simp [validateRules]
  | cons rule rules ih =>
    unfold validateRules
    split_ifs with negative known
    · simp [negative]
    · simp [known]
    · rw [Outcome.check_eq_ok, ih, map_cons, nodup_cons, forall_mem_cons]
      have distinct : rule.number ∉ rules.map (·.number) ↔ ∀ other ∈ rules, other.number ≠ rule.number := by
        simp
      rw [distinct]
      simp only [mem_cons, not_or]
      constructor
      · rintro ⟨shape, each, nodup⟩
        exact ⟨⟨⟨by omega, known, shape⟩, fun other member =>
          ⟨(each other member).1, (each other member).2.1.2, (each other member).2.2⟩⟩,
          fun other member => (each other member).2.1.1, nodup⟩
      · rintro ⟨⟨first, each⟩, apart, nodup⟩
        exact ⟨first.2.2, fun other member => ⟨(each other member).1,
          ⟨apart other member, (each other member).2.1⟩, (each other member).2.2⟩, nodup⟩

theorem validate_ok {config : ReplicationConfiguration} :
    validateReplicationConfigStructure config = .ok () ↔ config.rules ≠ [] ∧
      config.rules.length ≤ 1000 ∧
      (∀ rule ∈ config.rules, 0 ≤ rule.number ∧ rule.checkShape = .ok ()) ∧
      (config.rules.map (·.number)).Nodup := by
  unfold validateReplicationConfigStructure
  split_ifs with empty many
  · simp [empty]
  · simp [many]
  · rw [validate_rules_ok]
    simp [empty, Nat.not_lt.1 many]

/-- A rule up to its priority. -/
def ReplicationRule.cleared (rule : ReplicationRule) : ReplicationRule :=
  { rule with priority := none }

section

variable {isSiteRule : ReplicationRule → Bool} {taken : List Int} {next : Int}
  {rules operators : List ReplicationRule}
  (bySite : ∀ rule : ReplicationRule, isSiteRule rule.cleared = isSiteRule rule)
  {passes : ReplicationRule → Bool} {incoming localRules : List ReplicationRule}

theorem next_free {steps : Nat} (enough : (taken.filter (next ≤ ·)).length ≤ steps) :
    nextFree taken steps next ∉ taken ∧ next ≤ nextFree taken steps next ∧
      nextFree taken steps next ≤ next + steps := by
  induction steps generalizing next with
  | zero =>
    refine ⟨fun member => ?_, le_refl next, by simp [nextFree]⟩
    have counted : 0 < (taken.filter (next ≤ ·)).length :=
      length_pos_of_mem (mem_filter.2 ⟨member, decide_eq_true (le_refl next)⟩)
    exact absurd enough (Nat.not_le.2 counted)
  | succ steps ih =>
    unfold nextFree
    split
    next used =>
      have fewer : (taken.filter (next + 1 ≤ ·)).length < (taken.filter (next ≤ ·)).length := by
        have again : taken.filter (next + 1 ≤ ·) =
            (taken.filter (next ≤ ·)).filter (next + 1 ≤ ·) := by
          rw [filter_filter]
          apply filter_congr
          intro value _
          rw [← Bool.decide_and, decide_eq_decide]
          omega
        rw [again, length_filter_lt_length_iff_exists]
        exact ⟨next, mem_filter.2 ⟨used, by simp⟩, by simp⟩
      obtain ⟨free, low, high⟩ := ih (Nat.le_of_lt_succ (Nat.lt_of_lt_of_le fewer enough))
      exact ⟨free, by omega, by push_cast; omega⟩
    next free => exact ⟨free, le_refl next, by push_cast; omega⟩

theorem assign_operators (operator : ∀ rule ∈ operators, isSiteRule rule = false) :
    assignFrom isSiteRule taken next (operators ++ rules) =
      operators ++ assignFrom isSiteRule taken next rules := by
  induction operators with
  | nil => rfl
  | cons rule operators ih =>
    rw [forall_mem_cons] at operator
    rw [cons_append, assignFrom, operator.1, ih operator.2]
    rfl

include bySite

theorem assign_cleared {others : List ReplicationRule} (site : ∀ rule ∈ rules, isSiteRule rule = true)
    (same : others.map (·.cleared) = rules.map (·.cleared)) :
    assignFrom isSiteRule taken next others = assignFrom isSiteRule taken next rules := by
  induction rules generalizing others next with
  | nil => rw [map_eq_nil_iff.1 same]
  | cons rule rules ih =>
    obtain ⟨other, others, rfl, isOther, isOthers⟩ := map_eq_cons_iff.1 same
    rw [forall_mem_cons] at site
    have otherSite : isSiteRule other = true := by rw [← bySite, isOther, bySite, site.1]
    have updated : ∀ free, { other with priority := some free } = { rule with priority := some free } :=
      fun free => congrArg (fun cleared : ReplicationRule => { cleared with priority := some free }) isOther
    rw [assignFrom, assignFrom, site.1, otherSite]
    simp only [if_true]
    rw [updated, ih site.2 isOthers]

omit bySite in
theorem assigned_cleared :
    (assignFrom isSiteRule taken next rules).map (·.cleared) = rules.map (·.cleared) := by
  induction rules generalizing next with
  | nil => rfl
  | cons rule rules ih =>
    rw [assignFrom]
    split
    · rw [map_cons, ih]
      rfl
    · rw [map_cons, ih]
      rfl

omit bySite in
theorem assigned_numbers (site : ∀ rule ∈ rules, isSiteRule rule = true)
    (small : next + (taken.length + 1) * rules.length < i32Max) :
    (∀ rule ∈ assignFrom isSiteRule taken next rules, next ≤ rule.number ∧ rule.number ∉ taken) ∧
      ((assignFrom isSiteRule taken next rules).map (·.number)).Nodup := by
  induction rules generalizing next with
  | nil => exact ⟨fun _ member => (nomatch member), nodup_nil⟩
  | cons rule rules ih =>
    rw [forall_mem_cons] at site
    obtain ⟨free, low, high⟩ := @next_free taken next _ (length_filter_le _ _)
    rw [assignFrom, site.1]
    simp only [if_true]
    generalize nextFree taken taken.length next = number at free low high
    have bound : number + 1 + (taken.length + 1) * rules.length < i32Max := by
      rw [length_cons, Nat.cast_succ, mul_add, mul_one] at small
      omega
    have room : number + 1 ≤ i32Max := by
      have natural : (0 : Int) ≤ (taken.length + 1) * rules.length := by positivity
      omega
    rw [min_eq_left room]
    obtain ⟨each, distinct⟩ := ih site.2 bound
    refine ⟨?_, ?_⟩
    · rw [forall_mem_cons]
      exact ⟨⟨low, free⟩, fun other member => ⟨by have := (each other member).1; omega,
        (each other member).2⟩⟩
    · rw [map_cons, nodup_cons]
      refine ⟨fun repeated => ?_, distinct⟩
      obtain ⟨other, member, isNumber⟩ := mem_map.1 repeated
      have above := (each other member).1
      rw [isNumber] at above
      exact absurd above (by simp [ReplicationRule.number])

/-- The incoming rules that a merge takes: those that pass a first filter and are no site rules. -/
def operatorRules (passes isSiteRule : ReplicationRule → Bool) (incoming : List ReplicationRule) :
    List ReplicationRule :=
  (incoming.filter passes).filter (!isSiteRule ·)

def mergedRules (passes isSiteRule : ReplicationRule → Bool)
    (incoming localRules : List ReplicationRule) : List ReplicationRule :=
  assignSiteReplicationRulePriorities isSiteRule
    (operatorRules passes isSiteRule incoming ++ localRules.filter isSiteRule)

omit bySite in
theorem operator_rules_mem (member : rule ∈ operatorRules passes isSiteRule incoming) :
    rule ∈ incoming ∧ passes rule = true ∧ isSiteRule rule = false := by
  obtain ⟨passing, operator⟩ := mem_filter.1 member
  exact ⟨(mem_filter.1 passing).1, (mem_filter.1 passing).2, by simpa using operator⟩

omit bySite in
theorem merged_rules_eq : mergedRules passes isSiteRule incoming localRules =
    operatorRules passes isSiteRule incoming ++ assignFrom isSiteRule
      ((operatorRules passes isSiteRule incoming).map (·.number)) 1 (localRules.filter isSiteRule) := by
  have operators : (operatorRules passes isSiteRule incoming ++ localRules.filter isSiteRule).filter
      (!isSiteRule ·) = operatorRules passes isSiteRule incoming := by
    rw [filter_append,
      filter_eq_self.2 fun rule member => by simp [(operator_rules_mem member).2.2],
      filter_eq_nil_iff.2 fun rule member => by simp [(mem_filter.1 member).2],
      append_nil]
  unfold mergedRules assignSiteReplicationRulePriorities
  rw [operators]
  exact assign_operators fun rule member => (operator_rules_mem member).2.2

theorem assigned_site (site : ∀ rule ∈ rules, isSiteRule rule = true)
    (member : rule ∈ assignFrom isSiteRule taken next rules) :
    isSiteRule rule = true ∧ ∃ other ∈ rules, other.cleared = rule.cleared := by
  have cleared : rule.cleared ∈ rules.map (·.cleared) := by
    rw [← @assigned_cleared isSiteRule taken next rules]
    exact mem_map_of_mem member
  obtain ⟨other, isOther, same⟩ := mem_map.1 cleared
  exact ⟨by rw [← bySite, ← same, bySite, site other isOther], other, isOther, same⟩

theorem merged_rules_again {again : List ReplicationRule}
    (same : again = incoming ∨ again = mergedRules passes isSiteRule incoming localRules) :
    mergedRules passes isSiteRule again (mergedRules passes isSiteRule incoming localRules) =
      mergedRules passes isSiteRule incoming localRules := by
  have site : ∀ rule ∈ localRules.filter isSiteRule, isSiteRule rule = true :=
    fun rule member => (mem_filter.1 member).2
  have operators : operatorRules passes isSiteRule again = operatorRules passes isSiteRule incoming := by
    rcases same with rfl | rfl
    · rfl
    · rw [merged_rules_eq, operatorRules, filter_append, filter_append,
        filter_eq_self.2 fun rule member => (operator_rules_mem member).2.1,
        filter_eq_self.2 fun rule member => by simp [(operator_rules_mem member).2.2],
        filter_eq_nil_iff.2 fun rule member => by
          simp [(assigned_site bySite site (mem_of_mem_filter member)).1], append_nil]
  have sites : (mergedRules passes isSiteRule incoming localRules).filter isSiteRule = assignFrom
      isSiteRule ((operatorRules passes isSiteRule incoming).map (·.number)) 1
      (localRules.filter isSiteRule) := by
    rw [merged_rules_eq, filter_append,
      filter_eq_nil_iff.2 fun rule member => by simp [(operator_rules_mem member).2.2],
      filter_eq_self.2 fun rule member => (assigned_site bySite site member).1, nil_append]
  conv_lhs => rw [merged_rules_eq, operators, sites, assign_cleared bySite site assigned_cleared]
  exact merged_rules_eq.symm

theorem merged_rules_valid
    (validIncoming : (∀ rule ∈ incoming, 0 ≤ rule.number ∧ rule.checkShape = .ok ()) ∧
      (incoming.map (·.number)).Nodup) (validLocal : ∀ rule ∈ localRules, rule.checkShape = .ok ())
    (short : (mergedRules passes isSiteRule incoming localRules).length ≤ 1000) :
    (∀ rule ∈ mergedRules passes isSiteRule incoming localRules,
        0 ≤ rule.number ∧ rule.checkShape = .ok ()) ∧
      ((mergedRules passes isSiteRule incoming localRules).map (·.number)).Nodup := by
  have site : ∀ rule ∈ localRules.filter isSiteRule, isSiteRule rule = true :=
    fun rule member => (mem_filter.1 member).2
  have shape : ∀ rule : ReplicationRule, rule.cleared.checkShape = rule.checkShape := fun _ => rfl
  rw [merged_rules_eq] at short ⊢
  rw [length_append] at short
  have length := congrArg List.length (@assigned_cleared isSiteRule
    ((operatorRules passes isSiteRule incoming).map (·.number)) 1 (localRules.filter isSiteRule))
  rw [length_map, length_map] at length
  obtain ⟨each, distinct⟩ := @assigned_numbers isSiteRule
    ((operatorRules passes isSiteRule incoming).map (·.number)) 1 (localRules.filter isSiteRule) site
    (by
      have product := Nat.mul_le_mul (show (operatorRules passes isSiteRule incoming).length + 1 ≤ 1001
        by omega) (show (localRules.filter isSiteRule).length ≤ 1000 by omega)
      rw [length_map, i32Max]
      zify at product
      omega)
  refine ⟨forall_mem_append.2 ⟨fun rule member =>
    validIncoming.1 rule (operator_rules_mem member).1, fun rule member => ?_⟩, ?_⟩
  · obtain ⟨_, other, isOther, same⟩ := assigned_site bySite site member
    refine ⟨by have := (each rule member).1; omega, ?_⟩
    rw [← shape, ← same, shape]
    exact validLocal other (mem_of_mem_filter isOther)
  · rw [map_append, nodup_append]
    refine ⟨validIncoming.2.sublist ((filter_sublist.trans filter_sublist).map _), distinct, ?_⟩
    rintro _ operator _ assigned rfl
    obtain ⟨rule, member, isNumber⟩ := mem_map.1 assigned
    exact (each rule member).2 (isNumber ▸ operator)

end

/-- The merged result passes validation, keeps the site rules of the one side up to their priorities
and the rules of the other, and merging again changes nothing. -/
def MergeStable (merge : Option ReplicationConfiguration → Option ReplicationConfiguration →
      Option ReplicationConfiguration) (kept isSiteRule : ReplicationRule → Bool)
    (incoming localConfig : Option ReplicationConfiguration) : Prop :=
  let merged := merge incoming localConfig
  (rulesOf merged).length ≤ 1000 →
    (∀ config, merged = some config → validateReplicationConfigStructure config = .ok ()) ∧
    (∀ rule ∈ rulesOf localConfig, isSiteRule rule = true →
      ∃ priority, { rule with priority } ∈ rulesOf merged) ∧
    (rulesOf incoming).filter kept <+: rulesOf merged ∧
    merge incoming merged = merged ∧ merge merged merged = merged

def Validated (config : Option ReplicationConfiguration) : Prop :=
  ∀ valid ∈ config, validateReplicationConfigStructure valid = .ok ()

section

variable {incoming localConfig : Option ReplicationConfiguration} {deploymentIds : List String}
  {passes : ReplicationRule → Bool}

theorem Validated.rules (valid : Validated incoming) :
    (∀ rule ∈ rulesOf incoming, 0 ≤ rule.number ∧ rule.checkShape = .ok ()) ∧
      ((rulesOf incoming).map (·.number)).Nodup := by
  cases incoming with
  | none => exact ⟨fun _ member => (nomatch member), nodup_nil⟩
  | some config => exact (validate_ok.1 (valid config rfl)).2.2

def mergedRole (deploymentIds : List String) (incoming : Option ReplicationConfiguration) : String :=
  if isSiteReplicationRole deploymentIds (incoming.elim "" (·.role)) then ""
  else incoming.elim "" (·.role)

/-- The derived merge of the incoming rules that pass a first filter. -/
def mergeKept (passes : ReplicationRule → Bool) (deploymentIds : List String)
    (incoming localConfig : Option ReplicationConfiguration) : Option ReplicationConfiguration :=
  mergeReplicationConfigKeepingSiteRules
    (incoming.map fun config => { config with rules := config.rules.filter passes }) localConfig
    deploymentIds .derived

theorem merge_kept_eq : mergeKept passes deploymentIds incoming localConfig =
    let rules := mergedRules passes (isReconcilerOwnedSiteReplicationRule deploymentIds)
      (rulesOf incoming) (rulesOf localConfig)
    if rules = [] then none else some ⟨mergedRole deploymentIds incoming, rules⟩ := by
  have assigned : ∀ rules, assignSiteReplicationRulePriorities
      (isReconcilerOwnedSiteReplicationRule deploymentIds) rules = [] ↔ rules = [] := by
    intro rules
    rw [← map_eq_nil_iff (f := ReplicationRule.cleared), assignSiteReplicationRulePriorities,
      assigned_cleared, map_eq_nil_iff]
  unfold mergedRules
  simp only [assigned]
  cases incoming with
  | none => rfl
  | some config => rfl

theorem merge_kept_stable (validIncoming : Validated incoming) (validLocal : Validated localConfig) :
    MergeStable (mergeKept passes deploymentIds)
      (fun rule => passes rule && !isReconcilerOwnedSiteReplicationRule deploymentIds rule)
      (isReconcilerOwnedSiteReplicationRule deploymentIds) incoming localConfig := by
  intro short
  generalize isRules : mergedRules passes (isReconcilerOwnedSiteReplicationRule deploymentIds)
    (rulesOf incoming) (rulesOf localConfig) = rules
  have isMerged := @merge_kept_eq incoming localConfig deploymentIds passes
  rw [isRules] at isMerged
  dsimp only at isMerged
  have mergedRulesOf : rulesOf (mergeKept passes deploymentIds incoming localConfig) = rules := by
    rw [isMerged]
    split
    next empty => exact empty.symm
    next => rfl
  have again : ∀ source, rulesOf source = rulesOf incoming ∨ rulesOf source = rules →
      (rules ≠ [] → mergedRole deploymentIds source = mergedRole deploymentIds incoming) →
      mergeKept passes deploymentIds source (mergeKept passes deploymentIds incoming localConfig) =
        mergeKept passes deploymentIds incoming localConfig := by
    intro source same role
    rw [merge_kept_eq, mergedRulesOf, ← isRules,
      merged_rules_again (fun _ => rfl) (same.imp_right (·.trans isRules.symm)), isRules, isMerged]
    dsimp only
    split_ifs with empty
    · rfl
    · rw [role empty]
  have valid := @merged_rules_valid (isReconcilerOwnedSiteReplicationRule deploymentIds)
    (fun _ => rfl) passes _ _ validIncoming.rules (fun rule member => (validLocal.rules.1 rule member).2)
    (by rwa [isRules, ← mergedRulesOf])
  rw [isRules] at valid
  refine ⟨?_, ?_, ?_, again _ (.inl rfl) fun _ => rfl, again _ (.inr mergedRulesOf) fun filled => ?_⟩
  · intro config isConfig
    rw [isMerged] at isConfig
    split_ifs at isConfig with empty
    obtain rfl := Option.some.inj isConfig
    exact validate_ok.2 ⟨empty, mergedRulesOf ▸ short, valid⟩
  · intro rule member site
    rw [mergedRulesOf, ← isRules, merged_rules_eq]
    have cleared := mem_map_of_mem (f := ReplicationRule.cleared) (mem_filter.2 ⟨member, site⟩)
    rw [← assigned_cleared] at cleared
    obtain ⟨other, isOther, same⟩ := mem_map.1 cleared
    refine ⟨other.priority, mem_append_right _ ?_⟩
    have updated : { rule with priority := other.priority } = other :=
      congrArg (fun cleared : ReplicationRule => { cleared with priority := other.priority }) same.symm
    rw [updated]
    exact isOther
  · rw [mergedRulesOf, ← isRules, merged_rules_eq, operatorRules, filter_filter]
    simp only [Bool.and_comm (passes _)]
    exact prefix_append _ _
  · rw [isMerged, if_neg filled]
    unfold mergedRole
    dsimp only [Option.elim_some]
    split
    · split <;> rfl
    · rfl

end

/-- Both merges under the derived contract, for any two configurations that pass validation or are
absent. -/
theorem merges_stable (incoming localConfig : Option ReplicationConfiguration)
    (deploymentIds : List String) (validIncoming : Validated incoming)
    (validLocal : Validated localConfig) :
    MergeStable (mergeIncomingReplicationConfig · · deploymentIds .derived)
        (!isReconcilerOwnedSiteReplicationRule deploymentIds ·)
        (isReconcilerOwnedSiteReplicationRule deploymentIds) incoming localConfig ∧
      MergeStable (mergeUserReplicationConfig · · deploymentIds .derived)
        (fun rule => !rule.siteId.any (· ∈ deploymentIds) &&
          !isReconcilerOwnedSiteReplicationRule deploymentIds rule)
        (isReconcilerOwnedSiteReplicationRule deploymentIds) incoming localConfig := by
  refine ⟨?_, merge_kept_stable validIncoming validLocal⟩
  have all : (mergeIncomingReplicationConfig · · deploymentIds .derived) =
      mergeKept (fun _ => true) deploymentIds := by
    funext incoming localConfig
    unfold mergeKept
    simp
    rfl
  rw [all]
  simpa using @merge_kept_stable incoming localConfig deploymentIds (fun _ => true) validIncoming
    validLocal

/-- The rule that the reconciler derives for a peer. -/
def sampleSiteRule : ReplicationRule :=
  { sampleReplicationRule "site-repl-peer" 1 with
    destinationBucket := "arn:rustfs:replication::peer:bucket" }

theorem sample_merge_stable :
    mergeIncomingReplicationConfig (some sampleReplication) (some ⟨"", [sampleSiteRule]⟩) ["peer"]
        .derived = some ⟨"", sampleReplication.rules ++ [{ sampleSiteRule with priority := some 3 }]⟩ ∧
      MergeStable (mergeIncomingReplicationConfig · · ["peer"] .derived)
        (!isReconcilerOwnedSiteReplicationRule ["peer"] ·)
        (isReconcilerOwnedSiteReplicationRule ["peer"]) (some sampleReplication)
        (some ⟨"", [sampleSiteRule]⟩) := by
  refine ⟨by decide, (merges_stable _ _ _ ?_ ?_).1⟩
  · intro valid isValid
    rw [← Option.some.inj isValid]
    rfl
  · intro valid isValid
    rw [← Option.some.inj isValid]
    rfl

end Rustfs.Replication
