import Rustfs.Policy.StatementEq

/-!
# Merged policies

`Policy::merge_policies` and `drop_duplicate_statements` of `policy/policy.rs`. The
answer of a merged policy is that of its statements, in any order and however often they
are repeated, exactly when the evaluations it needs come to an end. The ids of the
policies, which no evaluation reads, are left out.
-/

namespace Rustfs.Policy

open List Option Variables Library.ShortCircuit

/-- The statements that equal none of those kept before them. -/
def dropFrom (kept : List Statement) : List Statement → List Statement
  | [] => []
  | statement :: rest =>
    if kept.any fun earlier => earlier.same statement then dropFrom kept rest
    else statement :: dropFrom (kept ++ [statement]) rest

def dropDuplicateStatements (policy : Policy) : Policy :=
  { policy with statements := dropFrom [] policy.statements }

def allStatements (inputs : List Policy) : List Statement := inputs.flatMap (·.statements)

def mergePolicies (inputs : List Policy) : Policy :=
  dropDuplicateStatements
    { version := inputs.foldl
        (fun version policy => if version.isEmpty then policy.version else version) []
      statements := allStatements inputs }

variable {statement : Statement} {statements : List Statement} {inputs : List Policy}

theorem drop_subset {kept : List Statement}
    (member : statement ∈ dropFrom kept statements) : statement ∈ statements := by
  induction statements generalizing kept with
  | nil => exact member
  | cons first rest ih =>
    rw [dropFrom] at member
    split at member
    · exact mem_cons_of_mem _ (ih member)
    · rcases mem_cons.1 member with rfl | later
      · exact mem_cons_self
      · exact mem_cons_of_mem _ (ih later)

theorem drop_represents (kept : List Statement) (member : statement ∈ statements) :
    statement ∈ dropFrom kept statements ∨
      ∃ earlier ∈ kept ++ dropFrom kept statements, earlier.same statement = true := by
  induction statements generalizing kept with
  | nil => cases member
  | cons first rest ih =>
    rw [dropFrom]
    split
    · rename_i dropped
      rcases mem_cons.1 member with rfl | later
      · obtain ⟨earlier, isKept, equal⟩ := any_eq_true.1 dropped
        exact .inr ⟨earlier, mem_append_left _ isKept, equal⟩
      · exact ih kept later
    · rcases mem_cons.1 member with rfl | later
      · exact .inl mem_cons_self
      · rcases ih (kept ++ [first]) later with found | ⟨earlier, isKept, equal⟩
        · exact .inl (mem_cons_of_mem _ found)
        · rw [append_assoc] at isKept
          exact .inr ⟨earlier, isKept, equal⟩

theorem merge_subset
    (member : statement ∈ (mergePolicies inputs).statements) : statement ∈ allStatements inputs :=
  drop_subset member

theorem merge_represents (member : statement ∈ allStatements inputs) :
    ∃ kept ∈ (mergePolicies inputs).statements, kept = statement ∨ kept.same statement = true := by
  rcases drop_represents [] member with found | ⟨earlier, isKept, equal⟩
  · exact ⟨statement, found, .inl rfl⟩
  · exact ⟨earlier, isKept, .inr equal⟩

theorem merge_head (inputs : List Policy) (statement : Statement) :
    ∃ others, (mergePolicies (⟨[], [statement]⟩ :: inputs)).statements = statement :: others :=
  ⟨_, rfl⟩

section Answers

variable (parsers : Parsers) (clock : Clock) (args : Args) {policy : Policy}
  {others : List Statement} {result : Bool}

def Applies (statement : Statement) : Prop :=
  Returns (fun fuel => statement.check parsers clock fuel args) true

def Ends (statement : Statement) : Prop :=
  ∃ answer, Returns (fun fuel => statement.check parsers clock fuel args) answer

variable {parsers clock args} {statement other : Statement} {answer otherAnswer : Bool}

theorem check_returns {fuel : Nat} (done : statement.check parsers clock fuel args = some answer) :
    Returns (fun fuel => statement.check parsers clock fuel args) answer :=
  ⟨fuel, fun _ enough => Statement.check_mono enough done⟩

theorem same_returns (equal : statement = other ∨ statement.same other = true)
    (deserialized : statement.conditions.Deserialized)
    (done : Returns (fun fuel => statement.check parsers clock fuel args) answer)
    (otherDone : Returns (fun fuel => other.check parsers clock fuel args) otherAnswer) :
    answer = otherAnswer := by
  obtain ⟨fuel, answered⟩ := done
  obtain ⟨otherFuel, otherAnswered⟩ := otherDone
  have left := answered (max fuel otherFuel) (Nat.le_max_left _ _)
  have right := otherAnswered (max fuel otherFuel) (Nat.le_max_right _ _)
  rcases equal with rfl | equal
  · exact agree_of_eq rfl _ _ left right
  · exact Statement.same_check_agrees equal deserialized parsers clock _ args _ _ left right

theorem common_fuel (ends : ∀ statement ∈ statements, Ends parsers clock args statement) :
    ∃ fuel, ∀ more, fuel ≤ more → ∀ statement ∈ statements, ∃ answer,
      statement.check parsers clock more args = some answer := by
  induction statements with
  | nil => exact ⟨0, by simp⟩
  | cons first rest ih =>
    obtain ⟨⟨answer, fuel, answered⟩, restEnds⟩ := forall_mem_cons.1 ends
    obtain ⟨restFuel, restAnswered⟩ := ih restEnds
    refine ⟨max fuel restFuel, ?_⟩
    intro more enough
    refine forall_mem_cons.2 ⟨⟨answer, answered more (by omega)⟩, ?_⟩
    exact restAnswered more (by omega)

/-- No Deny statement applies, and an Allow statement does. -/
def Authorizes (parsers : Parsers) (clock : Clock) (args : Args) (statements : List Statement) :
    Prop :=
  (∀ statement ∈ statements, statement.effect = .deny → ¬ Applies parsers clock args statement) ∧
    ∃ statement ∈ statements, statement.effect = .allow ∧ Applies parsers clock args statement

/-- The evaluations that decide come to an end: those of the Deny statements, and
those of the Allow statements unless a Deny statement applies. -/
def Decides (parsers : Parsers) (clock : Clock) (args : Args) (statements : List Statement) : Prop :=
  (∀ statement ∈ statements, statement.effect = .deny → Ends parsers clock args statement) ∧
    ((∃ statement ∈ statements, statement.effect = .deny ∧ Applies parsers clock args statement) ∨
      ∀ statement ∈ statements, statement.effect = .allow → Ends parsers clock args statement)

variable {statements kept : List Statement}

/-- The statements a run goes over: some of the given ones, with one for each of them
that equals it. -/
structure Represents (kept statements : List Statement) : Prop where
  subset : ∀ statement ∈ kept, statement ∈ statements
  covers : ∀ statement ∈ statements, ∃ earlier ∈ kept,
    earlier = statement ∨ earlier.same statement = true

theorem same_effect (equal : statement = other ∨ statement.same other = true) :
    statement.effect = other.effect := by
  rcases equal with rfl | equal
  · rfl
  · exact (Statement.same_alike equal).effect

/-- A statement that applies is represented by one that applies, if the evaluation of
that one ends. -/
theorem represented_applies (represents : Represents kept statements)
    (deserialized : ∀ statement ∈ statements, statement.conditions.Deserialized)
    (member : statement ∈ statements) (applies : Applies parsers clock args statement)
    (ends : ∀ earlier ∈ kept, earlier.effect = statement.effect → Ends parsers clock args earlier) :
    ∃ earlier ∈ kept, earlier.effect = statement.effect ∧ Applies parsers clock args earlier := by
  obtain ⟨earlier, isKept, equal⟩ := represents.covers statement member
  have effect := same_effect equal
  obtain ⟨answer, returned⟩ := ends earlier isKept effect
  have holds : answer = true :=
    same_returns equal (deserialized earlier (represents.subset earlier isKept)) returned applies
  subst holds
  exact ⟨earlier, isKept, effect, returned⟩

theorem is_allowed_eq {fuel : Nat} (done : statement.check parsers clock fuel args = some answer) :
    statement.isAllowed parsers clock fuel args = some (statement.effect.isAllowed answer) := by
  unfold Statement.isAllowed
  rw [done]
  rfl

theorem mem_effect {effect : Effect} :
    statement ∈ kept.filter (·.effect = effect) ↔ statement ∈ kept ∧ statement.effect = effect := by
  simp [mem_filter]

theorem effect_fuel (effect : Effect)
    (ends : ∀ statement ∈ kept, statement.effect = effect → Ends parsers clock args statement) :
    ∃ fuel, ∀ more, fuel ≤ more → ∀ statement ∈ kept.filter (·.effect = effect), ∃ answer,
      statement.check parsers clock more args = some answer := by
  apply common_fuel
  intro statement member
  obtain ⟨isKept, isEffect⟩ := mem_effect.1 member
  exact ends statement isKept isEffect

theorem denied_returns (ends : ∀ statement ∈ policy.statements, statement.effect = .deny →
      Ends parsers clock args statement)
    (member : statement ∈ policy.statements) (denies : statement.effect = .deny)
    (applies : Applies parsers clock args statement) :
    Returns (fun fuel => policy.isAllowed parsers clock fuel args) false := by
  obtain ⟨fuel, answered⟩ := effect_fuel .deny ends
  obtain ⟨applyFuel, applied⟩ := applies
  refine ⟨max fuel applyFuel, ?_⟩
  intro more enough
  have refused : statement.isAllowed parsers clock more args = some false := by
    rw [is_allowed_eq (applied more (by omega)), denies]
    rfl
  have ended : ∀ statement ∈ policy.statements.filter (·.effect = .deny), ∃ answer,
      statement.isAllowed parsers clock more args = some answer := by
    intro statement listed
    obtain ⟨answer, done⟩ := answered more (by omega) statement listed
    exact ⟨_, is_allowed_eq done⟩
  obtain ⟨result, done⟩ := all_m_ends ended
  cases result with
  | false => exact and_also_some.2 (.inl ⟨done, rfl⟩)
  | true =>
    have allowed := all_m_true.1 done statement (mem_effect.2 ⟨member, denies⟩)
    rw [refused] at allowed
    cases allowed

theorem undenied_returns (whole : args.isOwner = false ∧ args.denyOnly = false)
    (ends : ∀ statement ∈ policy.statements, Ends parsers clock args statement)
    (undenied : ∀ statement ∈ policy.statements, statement.effect = .deny →
      ¬ Applies parsers clock args statement) :
    ∃ result, Returns (fun fuel => policy.isAllowed parsers clock fuel args) result ∧
      (result = true ↔ ∃ statement ∈ policy.statements, statement.effect = .allow ∧
        Applies parsers clock args statement) := by
  obtain ⟨fuel, answered⟩ := common_fuel ends
  have passed : (policy.statements.filter (·.effect = .deny)).allM
      (Statement.isAllowed parsers clock fuel args) = some true := by
    rw [all_m_true]
    intro statement listed
    obtain ⟨member, denies⟩ := mem_effect.1 listed
    obtain ⟨answer, done⟩ := answered fuel (Nat.le_refl _) statement member
    cases answer with
    | true => exact absurd (check_returns done) (undenied statement member denies)
    | false =>
      rw [is_allowed_eq done, denies]
      rfl
  have ended : ∀ statement ∈ policy.statements.filter (·.effect = .allow), ∃ answer,
      statement.isAllowed parsers clock fuel args = some answer := by
    intro statement listed
    obtain ⟨answer, done⟩ := answered fuel (Nat.le_refl _) statement (mem_effect.1 listed).1
    exact ⟨_, is_allowed_eq done⟩
  obtain ⟨result, done⟩ := any_m_ends ended
  have whole' : policy.isAllowed parsers clock fuel args = some result := by
    unfold Policy.isAllowed
    rw [passed, whole.1, whole.2]
    exact done
  refine ⟨result, ⟨fuel, fun _ enough => policy_mono enough whole'⟩, ?_⟩
  constructor
  · rintro rfl
    obtain ⟨statement, listed, allowed⟩ := any_m_true done
    obtain ⟨member, allows⟩ := mem_effect.1 listed
    obtain ⟨answer, checked⟩ := answered fuel (Nat.le_refl _) statement member
    rw [is_allowed_eq checked, allows] at allowed
    cases allowed
    exact ⟨statement, member, allows, check_returns checked⟩
  · rintro ⟨statement, member, allows, applies⟩
    obtain ⟨answer, checked⟩ := answered fuel (Nat.le_refl _) statement member
    have holds : answer = true := by
      obtain ⟨applyFuel, applied⟩ := applies
      have left := applied (max fuel applyFuel) (Nat.le_max_right _ _)
      have right := Statement.check_mono (Nat.le_max_left fuel applyFuel) checked
      exact (agree_of_eq rfl _ _ left right).symm
    cases result with
    | true => rfl
    | false =>
      have refused := any_m_false.1 done statement (mem_effect.2 ⟨member, allows⟩)
      rw [is_allowed_eq checked, allows, holds] at refused
      cases refused

theorem merge_answers (whole : args.isOwner = false ∧ args.denyOnly = false)
    (represents : Represents (mergePolicies inputs).statements statements)
    (deserialized : ∀ statement ∈ statements, statement.conditions.Deserialized)
    (decides : Decides parsers clock args statements) :
    ∃ result, Returns (fun fuel => (mergePolicies inputs).isAllowed parsers clock fuel args) result ∧
      (result = true ↔ Authorizes parsers clock args statements) := by
  obtain ⟨denyEnds, decided⟩ := decides
  have keptDenyEnds : ∀ statement ∈ (mergePolicies inputs).statements, statement.effect = .deny →
      Ends parsers clock args statement :=
    fun statement member denies => denyEnds statement (represents.subset statement member) denies
  by_cases denied : ∃ statement ∈ statements, statement.effect = .deny ∧
      Applies parsers clock args statement
  · obtain ⟨statement, member, denies, applies⟩ := denied
    obtain ⟨earlier, isKept, effect, earlierApplies⟩ := represented_applies represents deserialized
      member applies fun earlier isKept effect => keptDenyEnds earlier isKept (effect.trans denies)
    refine ⟨false, denied_returns keptDenyEnds isKept (effect.trans denies) earlierApplies, ?_⟩
    constructor
    · intro impossible
      cases impossible
    · intro authorizes
      exact absurd applies (authorizes.1 statement member denies)
  · have undenied : ∀ statement ∈ statements, statement.effect = .deny →
        ¬ Applies parsers clock args statement :=
      fun statement member denies applies => denied ⟨statement, member, denies, applies⟩
    have allEnd : ∀ statement ∈ statements, Ends parsers clock args statement := by
      intro statement member
      cases effect : statement.effect with
      | deny => exact denyEnds statement member effect
      | allow => exact decided.resolve_left denied statement member effect
    obtain ⟨result, returned, same⟩ := undenied_returns whole
      (fun statement member => allEnd statement (represents.subset statement member))
      (fun statement member => undenied statement (represents.subset statement member))
    refine ⟨result, returned, same.trans ?_⟩
    constructor
    · rintro ⟨statement, member, allows, applies⟩
      exact ⟨undenied, statement, represents.subset statement member, allows, applies⟩
    · rintro ⟨_, statement, member, allows, applies⟩
      obtain ⟨earlier, isKept, effect, earlierApplies⟩ := represented_applies represents deserialized
        member applies fun earlier isKept _ => allEnd earlier (represents.subset earlier isKept)
      exact ⟨earlier, isKept, effect.trans allows, earlierApplies⟩

theorem merge_represents_all {others : List Policy}
    (same : ∀ statement, statement ∈ allStatements others ↔ statement ∈ allStatements inputs) :
    Represents (mergePolicies others).statements (allStatements inputs) where
  subset := fun statement member => (same statement).1 (merge_subset member)
  covers := fun statement member => merge_represents ((same statement).2 member)

theorem first_deny_ends (starts : policy.statements = statement :: others)
    (denies : statement.effect = .deny)
    (returned : Returns (fun fuel => policy.isAllowed parsers clock fuel args) result) :
    Ends parsers clock args statement := by
  obtain ⟨fuel, done⟩ := returned
  have answered : ∃ found, (policy.statements.filter (·.effect = .deny)).allM
      (Statement.isAllowed parsers clock fuel args) = some found := by
    rcases and_also_some.1 (done fuel (Nat.le_refl _)) with ⟨failed, _⟩ | ⟨passed, _⟩
    · exact ⟨_, failed⟩
    · exact ⟨_, passed⟩
  obtain ⟨found, tested⟩ := answered
  rw [starts, filter_cons, if_pos (decide_eq_true denies)] at tested
  obtain ⟨allowed, isAllowed⟩ := all_m_head tested
  obtain ⟨answer, checked, _⟩ := map_eq_some_iff.1 isAllowed
  exact ⟨answer, check_returns checked⟩

theorem first_allow_ends (whole : args.isOwner = false ∧ args.denyOnly = false)
    (starts : policy.statements = statement :: others) (allows : statement.effect = .allow)
    (undenied : ∀ statement ∈ policy.statements, statement.effect = .deny →
      ¬ Applies parsers clock args statement)
    (returned : Returns (fun fuel => policy.isAllowed parsers clock fuel args) result) :
    Ends parsers clock args statement := by
  obtain ⟨fuel, done⟩ := returned
  rcases and_also_some.1 (done fuel (Nat.le_refl _)) with ⟨failed, _⟩ | ⟨_, decided⟩
  · obtain ⟨refusing, listed, refused⟩ := all_m_false failed
    obtain ⟨member, denies⟩ := mem_effect.1 listed
    obtain ⟨answer, checked, isFalse⟩ := map_eq_some_iff.1 refused
    rw [denies] at isFalse
    cases answer with
    | false => cases isFalse
    | true => exact absurd (check_returns checked) (undenied refusing member denies)
  · rw [whole.1, whole.2, starts] at decided
    simp only [Bool.false_eq_true, if_false] at decided
    rw [filter_cons, if_pos (decide_eq_true allows)] at decided
    obtain ⟨allowed, isAllowed⟩ := any_m_head decided
    obtain ⟨answer, checked, _⟩ := map_eq_some_iff.1 isAllowed
    exact ⟨answer, check_returns checked⟩

theorem merge_decides (whole : args.isOwner = false ∧ args.denyOnly = false)
    (answers : ∀ others, (∀ statement, statement ∈ allStatements others ↔
        statement ∈ allStatements inputs) →
      ∃ result, Returns (fun fuel => (mergePolicies others).isAllowed parsers clock fuel args) result) :
    Decides parsers clock args (allStatements inputs) := by
  have front : ∀ statement ∈ allStatements inputs, ∃ policy rest result,
      policy.statements = statement :: rest ∧
      (∀ other ∈ policy.statements, other ∈ allStatements inputs) ∧
      Returns (fun fuel => Policy.isAllowed parsers clock fuel args policy) result := by
    intro statement member
    have same : ∀ other, other ∈ allStatements (⟨[], [statement]⟩ :: inputs) ↔
        other ∈ allStatements inputs := by
      intro other
      rw [allStatements, flatMap_cons, mem_append, mem_singleton, ← allStatements]
      constructor
      · rintro (rfl | listed)
        · exact member
        · exact listed
      · exact .inr
    obtain ⟨result, returned⟩ := answers _ same
    obtain ⟨rest, starts⟩ := merge_head inputs statement
    exact ⟨_, rest, result, starts, fun other kept => (same other).1 (merge_subset kept), returned⟩
  constructor
  · intro statement member denies
    obtain ⟨policy, rest, result, starts, _, returned⟩ := front statement member
    exact first_deny_ends starts denies returned
  · by_cases denied : ∃ statement ∈ allStatements inputs, statement.effect = .deny ∧
        Applies parsers clock args statement
    · exact .inl denied
    · right
      intro statement member allows
      obtain ⟨policy, rest, result, starts, subset, returned⟩ := front statement member
      apply first_allow_ends whole starts allows _ returned
      intro other kept denies applies
      exact denied ⟨other, subset other kept, denies, applies⟩

end Answers

/-- The merged policy of every list with these statements answers what the statements
say, exactly when the evaluations that decide come to an end. Owners and requests for
denials alone are answered before the Allow statements and are left out. -/
theorem merge_preserves_authorization_iff (parsers : Parsers) (clock : Clock) (args : Args)
    (whole : args.isOwner = false ∧ args.denyOnly = false) (inputs : List Policy)
    (deserialized : ∀ statement ∈ allStatements inputs, statement.conditions.Deserialized) :
    (∀ others : List Policy,
      (∀ statement, statement ∈ allStatements others ↔ statement ∈ allStatements inputs) →
      ∃ result, Returns (fun fuel => (mergePolicies others).isAllowed parsers clock fuel args)
          result ∧
        (result = true ↔ Authorizes parsers clock args (allStatements inputs))) ↔
      Decides parsers clock args (allStatements inputs) := by
  constructor
  · intro preserved
    apply merge_decides whole
    intro others same
    obtain ⟨result, returned, _⟩ := preserved others same
    exact ⟨result, returned⟩
  · intro decides others same
    exact merge_answers whole (merge_represents_all same) deserialized decides

/-- A request of the account whose name is the marker that stands for it. -/
def selfNamedArgs : Args :=
  ⟨usernamePattern [] [], .s3Action .getObjectAction, str "b", [], false, str "x", [], false⟩

def allowObjects : Statement :=
  ⟨.allow, [.s3Action .getObjectAction], [], [.s3 (str "b/*")], [], ⟨[], [], []⟩⟩

def allowPolicy : Policy := ⟨[], [allowObjects]⟩
def loopingPolicy : Policy := ⟨[], [denyStatement .getObjectAction (usernamePattern [] [])]⟩

theorem looping_check (fuel : Nat) :
    (denyStatement .getObjectAction (usernamePattern [] [])).check Condition.stringParsers ⟨[], []⟩
      fuel selfNamedArgs = none := by
  rw [deny_statement_checks _ _ _ _ .getObjectAction rfl]
  unfold Resource.isMatchWithResolver
  have never : resolveWith (some ((variableResolverForPolicyArgs selfNamedArgs).resolveMultiple
      ⟨[], []⟩)) fuel (Resource.s3 (usernamePattern [] [])).pattern = none :=
    self_named_never_resolves rfl fuel
  rw [never]
  rfl

theorem allow_objects_applies :
    Applies Condition.stringParsers ⟨[], []⟩ selfNamedArgs allowObjects := by
  have done : allowObjects.check Condition.stringParsers ⟨[], []⟩ 4 selfNamedArgs = some true := by
    decide
  exact check_returns done

/-- The merged policy never answers a request that the statements authorize. -/
theorem looping_policy_never_answers :
    Authorizes Condition.stringParsers ⟨[], []⟩ selfNamedArgs
      (allStatements [allowPolicy, loopingPolicy]) ∧
    ¬ ∃ fuel result, (mergePolicies [allowPolicy, loopingPolicy]).isAllowed Condition.stringParsers
      ⟨[], []⟩ fuel selfNamedArgs = some result := by
  refine ⟨⟨?_, allowObjects, mem_cons_self, rfl, allow_objects_applies⟩, ?_⟩
  · intro statement member denies
    rcases mem_pair.1 member with rfl | rfl
    · cases denies
    · rintro ⟨fuel, applies⟩
      have answered := (looping_check fuel).symm.trans (applies fuel (Nat.le_refl _))
      cases answered
  · rintro ⟨fuel, result, done⟩
    have first : (mergePolicies [allowPolicy, loopingPolicy]).statements.filter (·.effect = .deny) =
        [denyStatement .getObjectAction (usernamePattern [] [])] := rfl
    unfold Policy.isAllowed at done
    rw [first, all_m_single, Statement.isAllowed, looping_check] at done
    cases done

theorem allow_policy_is_preserved :
    ∃ result, Returns (fun fuel => (mergePolicies [allowPolicy, allowPolicy]).isAllowed
        Condition.stringParsers ⟨[], []⟩ fuel selfNamedArgs) result ∧
      (result = true ↔ Authorizes Condition.stringParsers ⟨[], []⟩ selfNamedArgs
        (allStatements [allowPolicy])) := by
  have decides : Decides Condition.stringParsers ⟨[], []⟩ selfNamedArgs
      (allStatements [allowPolicy]) := by
    refine ⟨?_, .inr ?_⟩
    · intro statement member denies
      cases mem_singleton.1 member
      cases denies
    · intro statement member _
      cases mem_singleton.1 member
      exact ⟨true, allow_objects_applies⟩
  refine (merge_preserves_authorization_iff Condition.stringParsers ⟨[], []⟩ selfNamedArgs ⟨rfl, rfl⟩
    [allowPolicy] ?_).2 decides [allowPolicy, allowPolicy] ?_
  · intro statement member
    cases mem_singleton.1 member
    exact ⟨by decide, by decide, by decide⟩
  · intro statement
    simp [allStatements]

end Rustfs.Policy
