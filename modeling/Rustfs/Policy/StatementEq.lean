import Rustfs.Policy.Statement
import Mathlib.Data.List.Nodup
import Mathlib.Data.List.Perm.Subperm

/-!
# Equal statements

The hand-written equalities of `policy/function/condition.rs`, `policy/function.rs` and
`policy/statement.rs`. Statements that compare equal have the same answer on every
request on which both have one. The sid of a statement is not compared and is left out.
-/

namespace Rustfs.Policy

open List Bool Variables Wildcard Library.Lists Library.ShortCircuit StringFunc

/-- Equality of sets, and of action and resource lists: containment in both
directions. -/
def sameMembers {α : Type} [DecidableEq α] (left right : List α) : Bool :=
  left.all (fun item => right.contains item) && right.all (fun item => left.contains item)

/-- Equality of blocks: the same keys in the same order, with equal values. -/
def InnerFunc.same {α : Type} (sameValues : α → α → Bool) : InnerFunc α → InnerFunc α → Bool
  | [], [] => true
  | left :: lefts, right :: rights =>
    left.key = right.key && sameValues left.values right.values &&
      InnerFunc.same sameValues lefts rights
  | _, _ => false

namespace Condition

def same : Condition → Condition → Bool
  | string operator left, string operator' right =>
    operator = operator' && InnerFunc.same sameMembers left right
  | binaryEquals left, binaryEquals right => left = right
  | address operator left, address operator' right => operator = operator' && left = right
  | bool operator left, bool operator' right => operator = operator' && left = right
  | number operator left, number operator' right => operator = operator' && left = right
  | date operator left, date operator' right => operator = operator' && left = right
  | ifExists left, ifExists right => left.same right
  | _, _ => false

def stringKey : StringOperator → String
  | .stringEquals => "StringEquals"
  | .stringNotEquals => "StringNotEquals"
  | .stringEqualsIgnoreCase => "StringEqualsIgnoreCase"
  | .stringNotEqualsIgnoreCase => "StringNotEqualsIgnoreCase"
  | .stringLike => "StringLike"
  | .stringNotLike => "StringNotLike"
  | .arnLike => "ArnLike"
  | .arnNotLike => "ArnNotLike"
  | .arnEquals => "ArnEquals"
  | .arnNotEquals => "ArnNotEquals"

def numberKey : NumberOperator → String
  | .numericEquals => "NumericEquals"
  | .numericNotEquals => "NumericNotEquals"
  | .numericLessThan => "NumericLessThan"
  | .numericLessThanEquals => "NumericLessThanEquals"
  | .numericGreaterThan => "NumericGreaterThan"
  | .numericGreaterThanIfExists => "NumericGreaterThanIfExists"
  | .numericGreaterThanEquals => "NumericGreaterThanEquals"

def dateKey : DateOperator → String
  | .dateEquals => "DateEquals"
  | .dateNotEquals => "DateNotEquals"
  | .dateLessThan => "DateLessThan"
  | .dateLessThanEquals => "DateLessThanEquals"
  | .dateGreaterThan => "DateGreaterThan"
  | .dateGreaterThanEquals => "DateGreaterThanEquals"

/-- The operator a condition is written under. -/
def toKeyWithSuffix : Condition → String
  | string operator _ => stringKey operator
  | binaryEquals _ => "BinaryEquals"
  | address .ipAddress _ => "IpAddress"
  | address .notIpAddress _ => "NotIpAddress"
  | bool .null _ => "Null"
  | bool .bool _ => "Bool"
  | number operator _ => numberKey operator
  | date operator _ => dateKey operator
  | ifExists inner => inner.toKeyWithSuffix ++ "IfExists"

end Condition

namespace Functions

/-- Containment in one direction, for lists of the same length. -/
def sameList (left right : List Condition) : Bool :=
  left.all fun condition => right.any fun other => condition.same other

def same (left right : Functions) : Bool :=
  left.forAllValues.length = right.forAllValues.length &&
    left.forAnyValue.length = right.forAnyValue.length &&
    left.forNormal.length = right.forNormal.length &&
    sameList left.forAnyValue right.forAnyValue &&
    sameList left.forAllValues right.forAllValues && sameList left.forNormal right.forNormal

/-- Deserialization refuses an operator that is written twice. The equality of condition blocks
looks an operator up by its name and relies on this. -/
structure Deserialized (functions : Functions) : Prop where
  forAnyValue : (functions.forAnyValue.map Condition.toKeyWithSuffix).Nodup
  forAllValues : (functions.forAllValues.map Condition.toKeyWithSuffix).Nodup
  forNormal : (functions.forNormal.map Condition.toKeyWithSuffix).Nodup

end Functions

def Statement.same (left right : Statement) : Bool :=
  left.effect = right.effect && sameMembers left.actions right.actions &&
    sameMembers left.notActions right.notActions && sameMembers left.resources right.resources &&
    sameMembers left.notResources right.notResources && left.conditions.same right.conditions

variable {α β : Type} {items : List α} {sameValues : α → α → Bool} {resources : ResourceSet}
  {resource : Str} {clock : Clock}

theorem same_members_iff [DecidableEq α] {left right : List α} :
    sameMembers left right = true ↔ ∀ item, item ∈ left ↔ item ∈ right := by
  unfold sameMembers
  simp only [and_eq_true, all_eq_true, contains_iff_mem]
  constructor
  · rintro ⟨forward, backward⟩ item
    exact ⟨forward item, backward item⟩
  · intro same
    exact ⟨fun item member => (same item).1 member, fun item member => (same item).2 member⟩

theorem any_same {left right : List α} (same : ∀ item, item ∈ left ↔ item ∈ right)
    (test : α → Bool) : left.any test = right.any test := by
  rw [Bool.eq_iff_iff, any_eq_true, any_eq_true]
  simp only [same]

theorem empty_same {left right : List α} (same : ∀ item, item ∈ left ↔ item ∈ right) :
    left.isEmpty = right.isEmpty := by
  have whole := any_same same fun _ => true
  cases left with
  | nil =>
    cases right with
    | nil => rfl
    | cons item right => simp at whole
  | cons item left =>
    cases right with
    | nil => simp at whole
    | cons item right => rfl

theorem map_m_ends {f : α → Option β} :
    (items.mapM f).isSome = true ↔ ∀ item ∈ items, (f item).isSome = true := by
  induction items with
  | nil => simp
  | cons item items ih =>
    rw [forall_mem_cons, ← ih, mapM_cons]
    cases f item with
    | none => simp
    | some result =>
      cases items.mapM f with
      | none => simp
      | some results => simp

theorem map_m_mem {f : α → Option β} {results : List β}
    (done : items.mapM f = some results) (result : β) :
    result ∈ results ↔ ∃ item ∈ items, f item = some result := by
  rw [map_m_eq_some] at done
  induction done with
  | nil => simp
  | @cons item first items results isFirst _ ih =>
    rw [mem_cons, ih, exists_mem_cons_iff, isFirst, Option.some.injEq]
    exact or_congr_left ⟨Eq.symm, Eq.symm⟩

/-- Both results are there, with the same members, or none of them is. -/
def SameResults {β : Type} (left right : Option (List β)) : Prop :=
  left.isSome = right.isSome ∧
    ∀ found others, left = some found → right = some others → ∀ item, item ∈ found ↔ item ∈ others

theorem SameResults.map_eq {γ : Type} {left right : Option (List β)}
    (same : SameResults left right) {use : List β → γ}
    (members : ∀ found others, (∀ item, item ∈ found ↔ item ∈ others) → use found = use others) :
    left.map use = right.map use := by
  obtain ⟨ends, agree⟩ := same
  cases left with
  | none =>
    cases right with
    | none => rfl
    | some others => cases ends
  | some found =>
    cases right with
    | none => cases ends
    | some others => exact congrArg some (members _ _ (agree _ _ rfl rfl))

theorem map_m_same {f : α → Option β} {left right : List α}
    (same : ∀ item, item ∈ left ↔ item ∈ right) : SameResults (left.mapM f) (right.mapM f) := by
  constructor
  · rw [Bool.eq_iff_iff, map_m_ends, map_m_ends]
    simp only [same]
  · intro found others done otherDone result
    rw [map_m_mem done, map_m_mem otherDone]
    simp only [same]

theorem inner_same {left right : InnerFunc α}
    (equal : InnerFunc.same sameValues left right = true) :
    List.Forall₂ (fun one other => one.key = other.key ∧ sameValues one.values other.values = true)
      left right := by
  induction left generalizing right with
  | nil =>
    cases right with
    | nil => exact .nil
    | cons other right => cases equal
  | cons one left ih =>
    cases right with
    | nil => cases equal
    | cons other right =>
      simp only [InnerFunc.same, and_eq_true, decide_eq_true_eq] at equal
      exact .cons equal.1 (ih equal.2)

theorem inner_key_names {left right : InnerFunc α}
    (equal : InnerFunc.same sameValues left right = true) :
    left.map FuncKeyValue.key = right.map FuncKeyValue.key := by
  have pairs := inner_same equal
  clear equal
  induction pairs with
  | nil => rfl
  | cons pair _ ih => rw [map_cons, map_cons, pair.1, ih]

section Strings

variable {parsers : Parsers} {fuel : Nat} {quantifier : Quantifier} {values : ConditionValues}
  {resolver : Option Resolver} {left right : FuncKeyValue (List Str)}

theorem patterns_same (same : ∀ text, text ∈ left.values ↔ text ∈ right.values) :
    SameResults (StringFunc.patterns fuel values resolver left)
      (StringFunc.patterns fuel values resolver right) := by
  obtain ⟨ends, members⟩ : SameResults (left.values.mapM (resolveWith resolver fuel))
    (right.values.mapM (resolveWith resolver fuel)) := map_m_same same
  unfold patterns
  constructor
  · rw [Option.isSome_map, Option.isSome_map, ends]
  · intro found others done otherDone text
    obtain ⟨resolved, passed, rfl⟩ := Option.map_eq_some_iff.1 done
    obtain ⟨otherResolved, otherPassed, rfl⟩ := Option.map_eq_some_iff.1 otherDone
    simp only [mem_map, mem_flatten, members resolved otherResolved passed otherPassed]

theorem contains_same {found others : List Str} (same : ∀ text, text ∈ found ↔ text ∈ others)
    (text : Str) : found.contains text = others.contains text := by
  rw [Bool.eq_iff_iff, contains_iff_mem, contains_iff_mem, same]

theorem eval_same (keys : left.key = right.key)
    (same : ∀ text, text ∈ left.values ↔ text ∈ right.values) (ignoreCase negate : Bool) :
    StringFunc.eval parsers fuel quantifier ignoreCase negate values resolver left =
      StringFunc.eval parsers fuel quantifier ignoreCase negate values resolver right := by
  unfold eval
  rw [keys]
  apply (patterns_same same).map_eq
  intro found others agree
  have folded : ∀ text, text ∈ found.map (fold parsers ignoreCase) ↔
      text ∈ others.map (fold parsers ignoreCase) := by
    intro text
    simp only [mem_map, agree]
  simp only [contains_same folded]

theorem like_loop_same {patterns others : Option (List Str)} (same : SameResults patterns others)
    (negate : Bool) (requests : List Str) :
    StringFunc.likeLoop quantifier negate patterns requests =
      StringFunc.likeLoop quantifier negate others requests := by
  induction requests with
  | nil => rfl
  | cons request requests ih =>
    obtain ⟨ends, agree⟩ := same
    unfold likeLoop
    rw [ih]
    cases patterns with
    | none =>
      cases others with
      | none => rfl
      | some others => cases ends
    | some found =>
      cases others with
      | none => cases ends
      | some others =>
        dsimp only
        rw [any_same (agree _ _ rfl rfl)]

theorem evaluate_key_same (keys : left.key = right.key)
    (same : ∀ text, text ∈ left.values ↔ text ∈ right.values) (ignoreCase like negate : Bool) :
    StringFunc.evaluateKey parsers fuel quantifier ignoreCase like negate values resolver left =
      StringFunc.evaluateKey parsers fuel quantifier ignoreCase like negate values resolver right := by
  have liked : ∀ negate, evalLike fuel quantifier negate values resolver left =
      evalLike fuel quantifier negate values resolver right := by
    intro negate
    unfold evalLike
    rw [keys]
    simp only [like_loop_same (patterns_same same)]
  unfold evaluateKey
  simp only [liked, eval_same keys same]

end Strings

variable {parsers : Parsers} {fuel : Nat} {resolver : Option Resolver}

namespace Condition

variable {left right : Condition}

/-- Conditions that compare equal are the same condition, up to the order of the
values of a string block. -/
inductive Same : Condition → Condition → Prop
  | refl (condition : Condition) : Same condition condition
  | string (operator : StringOperator) {left right : StringFunc}
      (equal : InnerFunc.same sameMembers left right = true) :
      Same (.string operator left) (.string operator right)
  | ifExists {left right : Condition} (inner : Same left right) :
      Same (.ifExists left) (.ifExists right)

theorem same_sound (equal : left.same right = true) : Same left right := by
  induction left generalizing right with
  | string operator func =>
    cases right with
    | string operator' other =>
      simp only [same, and_eq_true, decide_eq_true_eq] at equal
      rw [equal.1]
      exact .string operator' equal.2
    | _ => cases equal
  | binaryEquals func =>
    cases right with
    | binaryEquals other =>
      simp only [same, decide_eq_true_eq] at equal
      rw [equal]
      exact .refl _
    | _ => cases equal
  | address operator func =>
    cases right with
    | address operator' other =>
      simp only [same, and_eq_true, decide_eq_true_eq] at equal
      rw [equal.1, equal.2]
      exact .refl _
    | _ => cases equal
  | bool operator func =>
    cases right with
    | bool operator' other =>
      simp only [same, and_eq_true, decide_eq_true_eq] at equal
      rw [equal.1, equal.2]
      exact .refl _
    | _ => cases equal
  | number operator func =>
    cases right with
    | number operator' other =>
      simp only [same, and_eq_true, decide_eq_true_eq] at equal
      rw [equal.1, equal.2]
      exact .refl _
    | _ => cases equal
  | date operator func =>
    cases right with
    | date operator' other =>
      simp only [same, and_eq_true, decide_eq_true_eq] at equal
      rw [equal.1, equal.2]
      exact .refl _
    | _ => cases equal
  | ifExists inner ih =>
    cases right with
    | ifExists other => exact .ifExists (ih equal)
    | _ => cases equal

theorem Same.key_names (equal : Same left right) : left.keyNames = right.keyNames := by
  induction equal with
  | refl condition => rfl
  | string operator equal =>
    have keys := congrArg (List.map Key.mapKey) (inner_key_names equal)
    rw [map_map, map_map] at keys
    exact keys
  | ifExists inner ih => exact ih

theorem Same.references (equal : Same left right) (keyName : KeyName) :
    left.referencesKeyName keyName = right.referencesKeyName keyName := by
  induction equal with
  | refl condition => rfl
  | string operator equal =>
    have keys := congrArg (List.any · fun key => key.isKey keyName) (inner_key_names equal)
    rw [any_map, any_map] at keys
    exact keys
  | ifExists inner ih => exact ih

theorem Same.operator (equal : Same left right) : left.toKeyWithSuffix = right.toKeyWithSuffix := by
  induction equal with
  | refl condition => rfl
  | string operator equal => rfl
  | ifExists inner ih => exact congrArg (· ++ "IfExists") ih

theorem Same.evaluates {quantifier : Quantifier}
    {values : ConditionValues} (equal : Same left right) :
    left.evaluateWithResolver parsers fuel quantifier values resolver =
      right.evaluateWithResolver parsers fuel quantifier values resolver := by
  induction equal with
  | refl condition => rfl
  | string operator equal =>
    unfold Condition.evaluateWithResolver StringFunc.evaluateWithResolver
    have pairs := inner_same equal
    clear equal
    induction pairs with
    | nil => rfl
    | cons pair _ ih =>
      rw [allM_cons, allM_cons, ih, evaluate_key_same pair.1 (same_members_iff.1 pair.2)]
  | @ifExists left right inner ih =>
    have keys : left.hasAnyKeyIn values = right.hasAnyKeyIn values := by
      unfold hasAnyKeyIn
      rw [inner.key_names]
    unfold evaluateWithResolver
    rw [keys, ih]

end Condition

namespace Functions

theorem same_list_contains {left right : List Condition} (equal : sameList left right = true) :
    ∀ condition ∈ left, ∃ other ∈ right, Condition.Same condition other := by
  intro condition member
  obtain ⟨other, otherMember, same⟩ := any_eq_true.1 (all_eq_true.1 equal condition member)
  exact ⟨other, otherMember, Condition.same_sound same⟩

/-- Containment in one direction is enough: the operators of a list are distinct and
the lists are of the same length. -/
theorem same_list_contained {left right : List Condition} (equal : sameList left right = true)
    (long : left.length = right.length) (distinct : (left.map Condition.toKeyWithSuffix).Nodup) :
    ∀ other ∈ right, ∃ condition ∈ left, Condition.Same condition other := by
  have contained := same_list_contains equal
  have operators : left.map Condition.toKeyWithSuffix ⊆ right.map Condition.toKeyWithSuffix := by
    intro operator member
    obtain ⟨condition, isLeft, rfl⟩ := mem_map.1 member
    obtain ⟨other, isRight, same⟩ := contained condition isLeft
    rw [same.operator]
    exact mem_map_of_mem isRight
  have permuted : (left.map Condition.toKeyWithSuffix).Perm (right.map Condition.toKeyWithSuffix) := by
    apply (subperm_of_subset distinct operators).perm_of_length_le
    rw [length_map, length_map, long]
  have distinctRight : (right.map Condition.toKeyWithSuffix).Nodup := permuted.nodup_iff.1 distinct
  intro other isRight
  obtain ⟨condition, isLeft, operator⟩ := mem_map.1
    (permuted.mem_iff.2 (mem_map_of_mem isRight))
  obtain ⟨found, isFound, same⟩ := contained condition isLeft
  have alike : found = other :=
    inj_on_of_nodup_map distinctRight isFound isRight (same.operator.symm.trans operator)
  exact ⟨condition, isLeft, alike ▸ same⟩

theorem same_conditions {left right : Functions} (equal : left.same right = true)
    (deserialized : left.Deserialized) :
    (∀ entry ∈ left.conditions, ∃ other ∈ right.conditions,
      entry.1 = other.1 ∧ Condition.Same entry.2 other.2) ∧
    ∀ other ∈ right.conditions, ∃ entry ∈ left.conditions,
      entry.1 = other.1 ∧ Condition.Same entry.2 other.2 := by
  simp only [same, and_eq_true, decide_eq_true_eq] at equal
  obtain ⟨⟨⟨⟨⟨allLong, anyLong⟩, normalLong⟩, anyEqual⟩, allEqual⟩, normalEqual⟩ := equal
  have anyTo := same_list_contains anyEqual
  have allTo := same_list_contains allEqual
  have normalTo := same_list_contains normalEqual
  have anyFrom := same_list_contained anyEqual anyLong deserialized.forAnyValue
  have allFrom := same_list_contained allEqual allLong deserialized.forAllValues
  have normalFrom := same_list_contained normalEqual normalLong deserialized.forNormal
  unfold conditions
  simp only [mem_append, mem_map]
  constructor
  · rintro entry ((⟨condition, member, rfl⟩ | ⟨condition, member, rfl⟩) | ⟨condition, member, rfl⟩)
    · obtain ⟨other, isOther, alike⟩ := anyTo condition member
      exact ⟨_, .inl (.inl ⟨other, isOther, rfl⟩), rfl, alike⟩
    · obtain ⟨other, isOther, alike⟩ := allTo condition member
      exact ⟨_, .inl (.inr ⟨other, isOther, rfl⟩), rfl, alike⟩
    · obtain ⟨other, isOther, alike⟩ := normalTo condition member
      exact ⟨_, .inr ⟨other, isOther, rfl⟩, rfl, alike⟩
  · rintro entry ((⟨other, member, rfl⟩ | ⟨other, member, rfl⟩) | ⟨other, member, rfl⟩)
    · obtain ⟨condition, isCondition, alike⟩ := anyFrom other member
      exact ⟨_, .inl (.inl ⟨condition, isCondition, rfl⟩), rfl, alike⟩
    · obtain ⟨condition, isCondition, alike⟩ := allFrom other member
      exact ⟨_, .inl (.inr ⟨condition, isCondition, rfl⟩), rfl, alike⟩
    · obtain ⟨condition, isCondition, alike⟩ := normalFrom other member
      exact ⟨_, .inr ⟨condition, isCondition, rfl⟩, rfl, alike⟩

section Answers

variable {parsers : Parsers} {fuel : Nat} {values : ConditionValues} {resolver : Option Resolver}
  {left right : Functions}

theorem same_functions_agree (equal : left.same right = true) (deserialized : left.Deserialized) :
    Agree (left.evaluateWithResolver parsers fuel values resolver)
      (right.evaluateWithResolver parsers fuel values resolver) := by
  obtain ⟨forward, backward⟩ := same_conditions equal deserialized
  intro answer other done otherDone
  unfold evaluateWithResolver at done otherDone
  cases answer with
  | true =>
    rw [all_m_true] at done
    have passed : right.conditions.allM (fun entry =>
        entry.2.evaluateWithResolver parsers fuel entry.1 values resolver) = some true := by
      rw [all_m_true]
      intro entry member
      obtain ⟨origin, isOrigin, quantifier, alike⟩ := backward entry member
      rw [← quantifier, ← alike.evaluates]
      exact done origin isOrigin
    rw [passed] at otherDone
    exact Option.some.inj otherDone
  | false =>
    obtain ⟨entry, member, failed⟩ := all_m_false done
    obtain ⟨image, isImage, quantifier, alike⟩ := forward entry member
    rw [quantifier, alike.evaluates] at failed
    cases other with
    | false => rfl
    | true =>
      rw [all_m_true] at otherDone
      have held := otherDone image isImage
      rw [failed] at held
      cases held

theorem same_functions_reference (equal : left.same right = true)
    (deserialized : left.Deserialized) (keyName : KeyName) :
    left.referencesKeyName keyName = right.referencesKeyName keyName := by
  obtain ⟨forward, backward⟩ := same_conditions equal deserialized
  unfold referencesKeyName
  rw [Bool.eq_iff_iff, any_eq_true, any_eq_true]
  constructor
  · rintro ⟨entry, member, referenced⟩
    obtain ⟨other, isOther, _, alike⟩ := forward entry member
    exact ⟨other, isOther, alike.references keyName ▸ referenced⟩
  · rintro ⟨other, member, referenced⟩
    obtain ⟨entry, isEntry, _, alike⟩ := backward other member
    exact ⟨entry, isEntry, (alike.references keyName).symm ▸ referenced⟩

end Answers

end Functions

namespace Statement

variable {left right : Statement}

theorem resources_agree {others : ResourceSet} {conditions : ConditionValues}
    (same : ∀ item, item ∈ resources ↔ item ∈ others) :
    Agree (resources.isMatchWithResolver fuel resource conditions resolver)
      (others.isMatchWithResolver fuel resource conditions resolver) :=
  any_m_agree same

/-- The parts of an equality of statements. -/
structure Alike (left right : Statement) : Prop where
  effect : left.effect = right.effect
  actions : ∀ action, action ∈ left.actions ↔ action ∈ right.actions
  notActions : ∀ action, action ∈ left.notActions ↔ action ∈ right.notActions
  resources : ∀ resource, resource ∈ left.resources ↔ resource ∈ right.resources
  notResources : ∀ resource, resource ∈ left.notResources ↔ resource ∈ right.notResources
  conditions : left.conditions.same right.conditions = true

theorem same_alike (equal : left.same right = true) : Alike left right := by
  simp only [same, and_eq_true, decide_eq_true_eq, same_members_iff] at equal
  obtain ⟨⟨⟨⟨⟨effect, actions⟩, notActions⟩, resources⟩, notResources⟩, conditions⟩ := equal
  exact ⟨effect, actions, notActions, resources, notResources, conditions⟩

theorem Alike.covers (alike : Alike left right) (action : Action) (deny : Bool) :
    left.actions.statementCovers left.notActions action deny =
      right.actions.statementCovers right.notActions action deny := by
  unfold ActionSet.statementCovers ActionSet.isMatchForEffect
  rw [any_same alike.notActions, any_same alike.actions, empty_same alike.actions]

theorem Alike.skips (alike : Alike left right) (args : Args) :
    left.skipsResourceMatchForArgs args = right.skipsResourceMatchForArgs args := by
  unfold skipsResourceMatchForArgs isSts isAdmin
  rw [any_same alike.actions, any_same alike.actions]

theorem Alike.kms_scope_agrees (alike : Alike left right) (fuel : Nat) (args : Args)
    (resolver : Resolver) :
    Agree (left.kmsKeyScopeMatches fuel args resolver)
      (right.kmsKeyScopeMatches fuel args resolver) := by
  have kms : ∀ resource, resource ∈ left.resources.filter Resource.isKms ↔
      resource ∈ right.resources.filter Resource.isKms := by
    intro resource
    rw [mem_filter, mem_filter, alike.resources]
  have notKms : ∀ resource, resource ∈ left.notResources.filter Resource.isKms ↔
      resource ∈ right.notResources.filter Resource.isKms := by
    intro resource
    rw [mem_filter, mem_filter, alike.notResources]
  unfold kmsKeyScopeMatches
  rw [empty_same alike.resources, empty_same alike.notResources, alike.effect]
  dsimp only
  rw [empty_same kms, empty_same notKms]
  split
  · exact agree_of_eq rfl
  split
  · exact agree_of_eq rfl
  split
  · exact agree_of_eq rfl
  apply agree_and_also
  · split
    · exact agree_of_eq rfl
    · exact resources_agree kms
  · exact agree_map (resources_agree notKms) _

theorem Alike.resource_scope_agrees (alike : Alike left right) (fuel : Nat) (args : Args)
    (resolver : Resolver) (resource : Str) :
    Agree (left.resourceScopeMatches fuel args resolver resource)
      (right.resourceScopeMatches fuel args resolver resource) := by
  unfold resourceScopeMatches
  rw [empty_same alike.resources, empty_same alike.notResources, alike.skips]
  apply agree_and_also
  · split
    · exact agree_of_eq rfl
    · exact agree_map (resources_agree alike.resources) _
  · split
    · exact agree_of_eq rfl
    · exact agree_map (resources_agree alike.notResources) _

theorem Alike.reaches_agrees (alike : Alike left right) (deserialized : left.conditions.Deserialized)
    (fuel : Nat) (args : Args) (resolver : Resolver) :
    Agree (left.requestReachesConditionEval fuel args resolver)
      (right.requestReachesConditionEval fuel args resolver) := by
  have kms : left.isKms = right.isKms := any_same alike.actions _
  have admin : left.isAdmin = right.isAdmin := any_same alike.actions _
  have sts : left.isSts = right.isSts := any_same alike.actions _
  unfold requestReachesConditionEval
  dsimp only
  rw [alike.effect, alike.covers, kms, admin, sts, empty_same alike.resources,
    empty_same alike.notResources,
    Functions.same_functions_reference alike.conditions deserialized]
  split
  · exact agree_of_eq rfl
  split
  · exact alike.kms_scope_agrees fuel args resolver
  split
  · exact agree_of_eq rfl
  · exact alike.resource_scope_agrees fuel args resolver _

theorem same_check_agrees (equal : left.same right = true)
    (deserialized : left.conditions.Deserialized) (parsers : Parsers) (clock : Clock) (fuel : Nat)
    (args : Args) :
    Agree (left.check parsers clock fuel args) (right.check parsers clock fuel args) := by
  have alike := same_alike equal
  exact agree_and_also (alike.reaches_agrees deserialized fuel args _)
    (Functions.same_functions_agree alike.conditions deserialized)

end Statement

section Fuel

variable {fuel more : Nat} {resolver : Option Resolver} {values : ConditionValues}
  {inner : FuncKeyValue (List Str)} {answer : Bool} {quantifier : Quantifier}

theorem map_m_mono {f g : α → Option β} {results : List β}
    (grows : ∀ item result, f item = some result → g item = some result)
    (done : items.mapM f = some results) : items.mapM g = some results := by
  rw [map_m_eq_some] at done ⊢
  exact done.imp fun item result => grows item result

theorem resolve_with_mono (enough : fuel ≤ more) {pattern : Str} {results : List Str}
    (done : resolveWith resolver fuel pattern = some results) :
    resolveWith resolver more pattern = some results := by
  cases resolver with
  | none => exact done
  | some resolver => exact resolves_mono enough done

theorem patterns_mono (enough : fuel ≤ more) {found : List Str}
    (done : StringFunc.patterns fuel values resolver inner = some found) :
    StringFunc.patterns more values resolver inner = some found := by
  unfold patterns at done ⊢
  obtain ⟨resolved, passed, rfl⟩ := Option.map_eq_some_iff.1 done
  rw [map_m_mono (fun _ _ => resolve_with_mono enough) passed]
  rfl

theorem like_loop_mono {negate : Bool} {patterns others : Option (List Str)}
    (grows : ∀ found, patterns = some found → others = some found) {requests : List Str}
    (done : StringFunc.likeLoop quantifier negate patterns requests = some answer) :
    StringFunc.likeLoop quantifier negate others requests = some answer := by
  cases patterns with
  | some found =>
    rw [grows found rfl]
    exact done
  | none =>
    cases requests with
    | nil => exact done
    | cons request requests => cases done

variable {parsers : Parsers}

theorem evaluate_key_mono (enough : fuel ≤ more) {ignoreCase like negate : Bool}
    (done : StringFunc.evaluateKey parsers fuel quantifier ignoreCase like negate values resolver
      inner = some answer) :
    StringFunc.evaluateKey parsers more quantifier ignoreCase like negate values resolver inner =
      some answer := by
  have evaluated : ∀ negate answer,
      eval parsers fuel quantifier ignoreCase negate values resolver inner = some answer →
      eval parsers more quantifier ignoreCase negate values resolver inner =
        some answer := by
    intro negate answer done
    unfold eval at done ⊢
    obtain ⟨found, passed, rfl⟩ := Option.map_eq_some_iff.1 done
    rw [patterns_mono enough passed]
    rfl
  have liked : ∀ negate answer,
      evalLike fuel quantifier negate values resolver inner = some answer →
      evalLike more quantifier negate values resolver inner = some answer := by
    intro negate answer done
    unfold evalLike at done ⊢
    cases present : values.lookup inner.key.mapKey with
    | none =>
      rw [present] at done
      exact done
    | some requests =>
      rw [present] at done
      exact like_loop_mono (fun _ => patterns_mono enough) done
  have either : ∀ negate answer,
      (if like then evalLike fuel quantifier negate values resolver inner
        else eval parsers fuel quantifier ignoreCase negate values resolver inner) =
          some answer →
      (if like then evalLike more quantifier negate values resolver inner
        else eval parsers more quantifier ignoreCase negate values resolver inner) =
          some answer := by
    intro negate answer
    exact ite_mono (liked negate answer) (evaluated negate answer)
  unfold evaluateKey at done ⊢
  cases quantifier with
  | none =>
    obtain ⟨found, passed, rfl⟩ := Option.map_eq_some_iff.1 done
    rw [either false found passed]
    rfl
  | forAnyValue | forAllValues => exact either negate answer done

theorem condition_mono (enough : fuel ≤ more) {condition : Condition}
    (done : condition.evaluateWithResolver parsers fuel quantifier values resolver = some answer) :
    condition.evaluateWithResolver parsers more quantifier values resolver = some answer := by
  induction condition with
  | string operator func => exact all_m_mono (fun _ _ => evaluate_key_mono enough) done
  | binaryEquals func => exact done
  | address operator func => exact done
  | bool operator func =>
    cases operator with
    | null => exact done
    | bool => exact done
  | number operator func => exact done
  | date operator func => exact done
  | ifExists inner ih => exact ite_mono ih id done

theorem functions_mono (enough : fuel ≤ more) {functions : Functions}
    (done : functions.evaluateWithResolver parsers fuel values resolver = some answer) :
    functions.evaluateWithResolver parsers more values resolver = some answer :=
  all_m_mono (fun _ _ => condition_mono enough) done

theorem resources_mono (enough : fuel ≤ more)
    (done : resources.isMatchWithResolver fuel resource values resolver = some answer) :
    resources.isMatchWithResolver more resource values resolver = some answer := by
  apply any_m_mono _ done
  intro self answer matched
  unfold Resource.isMatchWithResolver at matched ⊢
  obtain ⟨patterns, passed, rfl⟩ := Option.map_eq_some_iff.1 matched
  rw [resolve_with_mono enough passed]
  rfl

theorem map_resources_mono (enough : fuel ≤ more) {use : Bool → Bool}
    (done : (resources.isMatchWithResolver fuel resource values resolver).map use = some answer) :
    (resources.isMatchWithResolver more resource values resolver).map use = some answer := by
  obtain ⟨found, passed, rfl⟩ := Option.map_eq_some_iff.1 done
  rw [resources_mono enough passed]
  rfl

end Fuel

namespace Statement

variable {fuel more : Nat} {args : Args} {statement : Statement} {answer : Bool}

variable {resolver : Resolver}

theorem kms_scope_mono (enough : fuel ≤ more)
    (done : statement.kmsKeyScopeMatches fuel args resolver = some answer) :
    statement.kmsKeyScopeMatches more args resolver = some answer := by
  apply ite_mono id _ done
  apply ite_mono id
  apply ite_mono id
  exact and_also_mono (fun _ => ite_mono id (resources_mono enough))
    (fun _ => map_resources_mono enough)

theorem resource_scope_mono (enough : fuel ≤ more)
    (done : statement.resourceScopeMatches fuel args resolver resource = some answer) :
    statement.resourceScopeMatches more args resolver resource = some answer := by
  exact and_also_mono (fun _ => ite_mono id (map_resources_mono enough))
    (fun _ => ite_mono id (map_resources_mono enough)) done

theorem reaches_mono (enough : fuel ≤ more)
    (done : statement.requestReachesConditionEval fuel args resolver = some answer) :
    statement.requestReachesConditionEval more args resolver = some answer := by
  apply ite_mono id _ done
  apply ite_mono (kms_scope_mono enough)
  exact ite_mono id (resource_scope_mono enough)

theorem check_mono (enough : fuel ≤ more)
    (done : statement.check parsers clock fuel args = some answer) :
    statement.check parsers clock more args = some answer :=
  and_also_mono (fun _ => reaches_mono enough) (fun _ => functions_mono enough) done

theorem is_allowed_mono (enough : fuel ≤ more)
    (done : statement.isAllowed parsers clock fuel args = some answer) :
    statement.isAllowed parsers clock more args = some answer := by
  unfold isAllowed at done ⊢
  obtain ⟨found, passed, rfl⟩ := Option.map_eq_some_iff.1 done
  rw [check_mono enough passed]
  rfl

end Statement

theorem policy_mono {more : Nat} {args : Args} {policy : Policy} {answer : Bool} (enough : fuel ≤ more)
    (done : policy.isAllowed parsers clock fuel args = some answer) :
    policy.isAllowed parsers clock more args = some answer := by
  apply and_also_mono (fun _ => all_m_mono fun _ _ => Statement.is_allowed_mono enough) _ done
  intro answer
  apply ite_mono id
  exact ite_mono id (any_m_mono fun _ _ => Statement.is_allowed_mono enough)

end Rustfs.Policy
