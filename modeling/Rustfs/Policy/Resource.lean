import Rustfs.Policy.Expansion
import Rustfs.Policy.CleanPath

/-!
# Resource patterns

`policy/resource.rs`: a pattern is expanded by the resolver, its common keys are
replaced, and the cleaned resource is matched against what comes out. A pattern matches
what its complete expansions match. The validation of resources is left out.
-/

namespace Rustfs.Policy

open List Variables Wildcard

/-- The value a run on fuel settles on. More fuel does not change it, so there is one value at
most. -/
def Returns {α : Type} (run : Nat → Option α) (result : α) : Prop :=
  ∃ fuel, ∀ more, fuel ≤ more → run more = some result

/-- `str::replace`, with the number of bytes of a match that are still to be skipped. -/
def replaceFrom (needle value : Str) : (skip : Nat) → Str → Str
  | _, [] => []
  | skip + 1, _ :: rest => replaceFrom needle value skip rest
  | 0, byte :: rest =>
    if needle.isPrefixOf (byte :: rest) then
      value ++ replaceFrom needle value (needle.length - 1) rest
    else byte :: replaceFrom needle value 0 rest

def replace (text needle value : Str) : Str := replaceFrom needle value 0 text

def replaceKey (values : ConditionValues) (text : Str) (key : KeyName) : Str :=
  match firstValue values key with
  | some value => replace text key.varName value
  | none => text

def replaceCommonKeys (values : ConditionValues) (text : Str) : Str :=
  KeyName.commonKeys.foldl (replaceKey values) text

inductive Resource
  | s3 (pattern : Str)
  | kms (pattern : Str)
  deriving DecidableEq

/-- `resolve_aws_variables` where there is a resolver. -/
def resolveWith (resolver : Option Resolver) (fuel : Nat) (pattern : Str) : Option (List Str) :=
  match resolver with
  | some resolver => resolveAwsVariables resolver fuel pattern
  | none => some [pattern]

namespace Resource

def pattern : Resource → Str
  | s3 pattern => pattern
  | kms pattern => pattern

def isKms : Resource → Bool
  | s3 _ => false
  | kms _ => true

/-- The two comparisons of the cleaned path with one pattern. -/
def acceptsPath (resource pattern : Str) : Bool :=
  let cp := Path.clean resource
  (cp ≠ str "." && cp = pattern) || (cp ≠ str "." && isMatch pattern cp)

def isMatchWithResolver (fuel : Nat) (resource : Str) (conditions : ConditionValues)
    (resolver : Option Resolver) (self : Resource) : Option Bool :=
  (resolveWith resolver fuel self.pattern).map fun patterns =>
    patterns.any fun pattern => acceptsPath resource
      (if conditions.isEmpty then pattern else replaceCommonKeys conditions pattern)

/-- Without a resolver nothing is expanded. -/
def isMatch (resource : Str) (conditions : ConditionValues) (self : Resource) : Bool :=
  acceptsPath resource
    (if conditions.isEmpty then self.pattern else replaceCommonKeys conditions self.pattern)

theorem accepts_path_iff (resource pattern : Str) :
    acceptsPath resource pattern = true ↔
      Path.clean resource ≠ str "." ∧ Covers pattern (Path.clean resource) := by
  unfold acceptsPath
  simp only [Bool.or_eq_true, Bool.and_eq_true, decide_eq_true_eq, is_match_iff]
  constructor
  · rintro (⟨present, rfl⟩ | ⟨present, covered⟩)
    · exact ⟨present, covers_self _⟩
    · exact ⟨present, covered⟩
  · exact fun accepted => .inr accepted

end Resource

abbrev ResourceSet := List Resource

/-- The resources are tried in their order, up to the first that matches. -/
def ResourceSet.isMatchWithResolver (resources : ResourceSet) (fuel : Nat) (resource : Str)
    (conditions : ConditionValues) (resolver : Option Resolver) : Option Bool :=
  resources.anyM (Resource.isMatchWithResolver fuel resource conditions resolver)

section Username

variable {resolver : Resolver} {before after user resource : Str}

theorem split_opening_append {before : Str} (plain : splitOpening before = none) (rest : Str) :
    splitOpening (before ++ dollar :: openBrace :: rest) = some (before, rest) := by
  induction before with
  | nil => rfl
  | cons first before ih =>
    cases before with
    | nil =>
      have other : ¬ (first = dollar ∧ dollar = openBrace) := fun both => by cases both.2
      rw [singleton_append, splitOpening, if_neg other]
      rfl
    | cons second before =>
      rw [splitOpening] at plain
      split at plain
      · cases plain
      · rename_i other
        rw [cons_append, cons_append, splitOpening, if_neg other, ← cons_append,
          ih (Option.map_eq_none_iff.1 plain)]
        rfl

def usernameText : Str := str "aws:username"

/-- The pattern with the marker of the user name between the two texts. -/
def usernamePattern (before after : Str) : Str := before ++ delimited usernameText ++ after

theorem username_first (plain : hasOpening before = false)
    (known : resolver usernameText = some [user]) :
    firstMarker resolver (usernamePattern before after) = some ⟨before, usernameText, after⟩ := by
  have opening : splitOpening before = none := by
    simpa [hasOpening] using plain
  have split : usernamePattern before after =
      before ++ dollar :: openBrace :: (usernameText ++ closeBrace :: after) := by
    simp [usernamePattern, delimited]
  have listed : ∃ others, markers (usernamePattern before after) =
      ⟨before, usernameText, after⟩ :: others := by
    unfold markers
    obtain ⟨bound, long⟩ : ∃ bound, (usernamePattern before after).length = bound + 1 := by
      refine ⟨(usernamePattern before after).length - 1, ?_⟩
      rw [split]
      simp only [length_append, length_cons]
      omega
    rw [long, split]
    unfold markersFrom
    rw [split_opening_append opening]
    exact ⟨_, rfl⟩
  obtain ⟨others, same⟩ := listed
  unfold firstMarker
  rw [same, find?_cons_of_pos]
  unfold isRewritten
  rw [known, Option.isSome_some, Bool.or_true]

theorem username_substitutes (plain : hasOpening before = false)
    (known : resolver usernameText = some [user]) (next : Str) :
    Substitutes resolver (usernamePattern before after) next ↔ next = before ++ user ++ after := by
  have flat : hasOpening usernameText = false := by decide
  have first : firstMarker resolver (usernamePattern before after) =
      some ⟨before, usernameText, after⟩ := username_first plain known
  constructor
  · intro substitutes
    cases substitutes with
    | value first' _ known' chosen =>
      cases first'.symm.trans first
      cases known'.symm.trans known
      cases mem_singleton.1 chosen
      rfl
    | nested first' nested _ =>
      cases first'.symm.trans first
      cases nested
  · rintro rfl
    exact .value first flat known mem_cons_self

theorem self_named_never_resolves
    (known : resolver usernameText = some [usernamePattern [] []]) (fuel : Nat) :
    resolveAwsVariables resolver fuel (usernamePattern [] []) = none := by
  have substitutes : Substitutes resolver (usernamePattern [] []) (usernamePattern [] []) := by
    rw [username_substitutes (by decide) known, nil_append, append_nil]
  cases done : resolveAwsVariables resolver fuel (usernamePattern [] []) with
  | none => rfl
  | some results =>
    have finite := (resolves_sound done).1
    rw [← not_not (a := Acc _ _), not_acc_iff_exists_descending_chain] at finite
    exact absurd ⟨fun _ => usernamePattern [] [], rfl, fun _ => .inl substitutes⟩ finite

theorem expands_username (plain : hasOpening before = false)
    (known : resolver usernameText = some [user]) (last : Str) :
    Expands resolver (usernamePattern before after) last ↔
      Expands resolver (before ++ user ++ after) last := by
  rw [expands_iff_of_first (username_first plain known)]
  simp only [username_substitutes plain known, exists_eq_left]

theorem username_finite (plain : hasOpening before = false)
    (known : resolver usernameText = some [user])
    (finite : Acc (Continues resolver) (before ++ user ++ after)) :
    Acc (Continues resolver) (usernamePattern before after) := by
  constructor
  rintro next (substitutes | ⟨marker, first, nested, rfl⟩)
  · rw [(username_substitutes plain known next).1 substitutes]
    exact finite
  · cases first.symm.trans (username_first plain known)
    cases nested

end Username

/-- A run that ends: whatever is expanded has an end, and the resource matches one of
the expansions. -/
theorem resource_returns {resolver : Resolver} {self : Resource} (resource : Str)
    (finite : Acc (Continues resolver) self.pattern) :
    ∃ accepted, Returns (fun fuel =>
        self.isMatchWithResolver fuel resource [] (some resolver)) accepted ∧
      (accepted = true ↔ Path.clean resource ≠ str "." ∧
        ∃ last, Expands resolver self.pattern last ∧ Covers last (Path.clean resource)) := by
  obtain ⟨fuel, results, done⟩ := resolves_of_finite finite
  obtain ⟨_, complete⟩ := resolves_sound done
  refine ⟨results.any fun last => Resource.acceptsPath resource last, ⟨fuel, ?_⟩, ?_⟩
  · intro more enough
    have ended : resolveWith (some resolver) more self.pattern = some results :=
      resolves_mono enough done
    dsimp only
    unfold Resource.isMatchWithResolver
    rw [ended]
    rfl
  · simp only [any_eq_true, Resource.accepts_path_iff, complete]
    constructor
    · rintro ⟨last, expands, present, covered⟩
      exact ⟨present, last, expands, covered⟩
    · rintro ⟨present, last, expands, covered⟩
      exact ⟨last, expands, present, covered⟩

/-- A pattern with the user name in it is the pattern with the name's text in its
place: it accepts what the complete expansions of that text accept, which is the
name itself where the name has no wildcard and nothing in the text is a variable. -/
theorem username_is_spliced (self : Resource) (resolver : Resolver)
    (before after user resource : Str) (written : self.pattern = usernamePattern before after)
    (plain : hasOpening before = false ∧ hasOpening after = false)
    (known : resolver usernameText = some [user]) (cleaned : Path.clean resource = resource) :
    (Acc (Continues resolver) (before ++ user ++ after) →
      ∃ accepted, Returns (fun fuel => self.isMatchWithResolver fuel resource [] (some resolver))
          accepted ∧
        (accepted = true ↔ resource ≠ str "." ∧
          ∃ last, Expands resolver (before ++ user ++ after) last ∧ Covers last resource)) ∧
    (firstMarker resolver (before ++ user ++ after) = none → Plain user →
      ∃ accepted, Returns (fun fuel => self.isMatchWithResolver fuel resource [] (some resolver))
          accepted ∧
        (accepted = true ↔ resource ≠ str "." ∧
          ∃ front back, resource = front ++ user ++ back ∧ Covers before front ∧ Covers after back)) := by
  have spliced : Acc (Continues resolver) (before ++ user ++ after) →
      ∃ accepted, Returns (fun fuel => self.isMatchWithResolver fuel resource [] (some resolver))
          accepted ∧
        (accepted = true ↔ resource ≠ str "." ∧
          ∃ last, Expands resolver (before ++ user ++ after) last ∧ Covers last resource) := by
    intro finite
    have ends : Acc (Continues resolver) self.pattern := by
      rw [written]
      exact username_finite plain.1 known finite
    have returned := resource_returns resource ends
    rw [cleaned] at returned
    simpa only [written, expands_username plain.1 known] using returned
  refine ⟨spliced, ?_⟩
  intro settled literal
  obtain ⟨accepted, returned, same⟩ := spliced (settled_accessible settled)
  refine ⟨accepted, returned, same.trans (and_congr_right fun _ => ?_)⟩
  simp only [expands_of_settled settled, exists_eq_left, covers_append, covers_plain literal]
  constructor
  · rintro ⟨_, back, rfl, ⟨front, _, rfl, covered, rfl⟩, rest⟩
    exact ⟨front, back, rfl, covered, rest⟩
  · rintro ⟨front, back, rfl, covered, rest⟩
    exact ⟨_, back, rfl, ⟨front, user, rfl, covered, rfl⟩, rest⟩

def accountResolver (user : Str) : Resolver :=
  ({ VariableContext.new with username := some user } : VariableContext).resolveMultiple ⟨[], []⟩

theorem alice_is_spliced :
    ∃ accepted, Returns (fun fuel =>
        (Resource.s3 (usernamePattern (str "home/") (str "/*"))).isMatchWithResolver fuel
          (str "home/alice/x") [] (some (accountResolver (str "alice")))) accepted ∧
      (accepted = true ↔ str "home/alice/x" ≠ str "." ∧
        ∃ front back, str "home/alice/x" = front ++ str "alice" ++ back ∧
          Covers (str "home/") front ∧ Covers (str "/*") back) :=
  (username_is_spliced (.s3 (usernamePattern (str "home/") (str "/*")))
    (accountResolver (str "alice")) (str "home/") (str "/*") (str "alice") (str "home/alice/x") rfl
    (by decide) rfl (by decide +kernel)).2 (by decide +kernel)
    (by unfold Plain; decide +kernel)

/-- The name `*` stands for every text. -/
theorem star_name_is_a_wildcard :
    Path.clean (str "x") = str "x" ∧
    Returns (fun fuel => (Resource.s3 (usernamePattern [] [])).isMatchWithResolver fuel
      (str "x") [] (some (accountResolver (str "*")))) true ∧
    ¬ ∃ front back, str "x" = front ++ str "*" ++ back ∧ Covers [] front ∧ Covers [] back := by
  refine ⟨by decide, ⟨9, ?_⟩, ?_⟩
  · intro more enough
    have done : resolveAwsVariables (accountResolver (str "*")) 9 (usernamePattern [] []) =
        some [str "*"] := by
      decide
    have ended : resolveWith (some (accountResolver (str "*"))) more
        (Resource.s3 (usernamePattern [] [])).pattern = some [str "*"] :=
      resolves_mono enough done
    dsimp only
    unfold Resource.isMatchWithResolver
    rw [ended]
    decide
  · rintro ⟨front, back, same, empty, rest⟩
    cases empty
    cases rest
    revert same
    decide

end Rustfs.Policy
