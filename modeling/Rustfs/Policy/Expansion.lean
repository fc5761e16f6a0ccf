import Rustfs.Policy.Wildcard
import Rustfs.Library.Lists
import Mathlib.Order.WellFounded

/-!
# Policy variables

`policy/variables.rs`: the resolver of a request, and the expansion of the variables in
a pattern. The expansion rescans what it has just written, so it runs on fuel; `none` is
a run that has not ended yet. The cache of resolved variables is left out; the clock is
a parameter.
-/

namespace Rustfs.Policy

open List

/-- A claim of the token; a number is kept as the text it prints as. -/
inductive Value
  | null
  | bool (value : Bool)
  | number (text : Str)
  | string (text : Str)
  | array (items : List Value)
  | object

abbrev Claims := List (Str × Value)

structure VariableContext where
  isHttps : Bool
  sourceIp : Option Str
  accountId : Option Str
  region : Option Str
  username : Option Str
  claims : Option Claims
  customVariables : List (Str × Str)

def VariableContext.new : VariableContext := ⟨false, none, none, none, none, none, []⟩

/-- The texts of the clock, as the two time variables print it. -/
structure Clock where
  currentTime : Str
  epochTime : Str

namespace VariableContext

def boolText (value : Bool) : Str := if value then str "true" else str "false"

def scalarText : Value → Option Str
  | .string text => some text
  | .number text => some text
  | .bool value => some (boolText value)
  | _ => none

def getClaimAsStrings (context : VariableContext) (claimName : Str) : Option (List Str) :=
  match (context.claims.bind fun claims => claims.lookup claimName) with
  | none => none
  | some (.array items) => some (items.filterMap scalarText)
  | some value => (scalarText value).map fun text => [text]

def subOrParent (context : VariableContext) : Option (List Str) :=
  (context.getClaimAsStrings (str "sub")).or (context.getClaimAsStrings (str "parent"))

def hasClaim (claims : Claims) (name : String) : Bool := (claims.lookup (str name)).isSome

def resolvePrincipalType (context : VariableContext) : Str :=
  match context.claims with
  | none => str "User"
  | some claims =>
    if hasClaim claims "roleArn" then str "AssumedRole"
    else if hasClaim claims "parent" && hasClaim claims "sa-policy" then str "ServiceAccount"
    else str "User"

def customPrefix : Str := str "custom:"

def resolve (context : VariableContext) (clock : Clock) (name : Str) : Option Str :=
  if name = str "aws:username" then context.username
  else if name = str "aws:userid" then context.subOrParent.bind List.getLast?
  else if name = str "aws:PrincipalType" then some context.resolvePrincipalType
  else if name = str "aws:SecureTransport" then some (boolText context.isHttps)
  else if name = str "aws:CurrentTime" then some clock.currentTime
  else if name = str "aws:EpochTime" then some clock.epochTime
  else if name = str "aws:AccountId" then context.accountId
  else if name = str "aws:Region" then context.region
  else if name = str "aws:SourceIp" then context.sourceIp
  else if customPrefix.isPrefixOf name then
    context.customVariables.lookup (name.drop customPrefix.length)
  else none

def resolveMultiple (context : VariableContext) (clock : Clock) (name : Str) : Option (List Str) :=
  if name = str "aws:username" then context.username.map fun text => [text]
  else if name = str "aws:userid" then context.subOrParent
  else (context.resolve clock name).map fun text => [text]

end VariableContext

/-- `resolve_multiple` of any resolver. -/
abbrev Resolver := Str → Option (List Str)

namespace Variables

def dollar : UInt8 := 0x24
def openBrace : UInt8 := 0x7b
def closeBrace : UInt8 := 0x7d

/-- The search for the next opening of a marker: the text before it and after it. -/
def splitOpening : Str → Option (Str × Str)
  | [] => none
  | [_] => none
  | first :: second :: rest =>
    if first = dollar ∧ second = openBrace then some ([], rest)
    else (splitOpening (second :: rest)).map fun found => (first :: found.1, found.2)

/-- The loop that counts braces: the text up to the closing brace, and after it.
The depth is `brace_count - 1`. -/
def splitClosing : (depth : Nat) → Str → Option (Str × Str)
  | _, [] => none
  | depth, byte :: rest =>
    if byte = closeBrace then
      match depth with
      | 0 => some ([], rest)
      | depth + 1 => (splitClosing depth rest).map fun found => (byte :: found.1, found.2)
    else
      (splitClosing (if byte = openBrace then depth + 1 else depth) rest).map fun found =>
        (byte :: found.1, found.2)

/-- One marker of a text, with the name between its braces. -/
structure Marker where
  before : Str
  name : Str
  after : Str
  deriving DecidableEq

def Marker.plug (marker : Marker) (value : Str) : Str := marker.before ++ value ++ marker.after

def delimited (name : Str) : Str := [dollar, openBrace] ++ name ++ [closeBrace]

/-- The markers in the order of the scan, which goes on behind a marker it leaves
alone and ends at one that is not closed. A marker takes three bytes, so the length
of the text bounds their number. -/
def markersFrom : (bound : Nat) → (skipped rest : Str) → List Marker
  | 0, _, _ => []
  | bound + 1, skipped, rest =>
    match splitOpening rest with
    | none => []
    | some (before, inside) =>
      match splitClosing 0 inside with
      | none => []
      | some (name, after) =>
        ⟨skipped ++ before, name, after⟩ ::
          markersFrom bound (skipped ++ before ++ delimited name) after

def markers (text : Str) : List Marker := markersFrom text.length [] text

def hasOpening (text : Str) : Bool := (splitOpening text).isSome

/-- The scan of one text: what replaces it when a marker is rewritten. A marker
with markers in its name is replaced by the expanded name. -/
def rewriteFirst (resolver : Resolver) (expand : Str → Option (List Str)) :
    List Marker → Option (Option (List Str))
  | [] => some none
  | marker :: rest =>
    if hasOpening marker.name then
      match expand marker.name with
      | none => none
      | some inner =>
        if inner.isEmpty then rewriteFirst resolver expand rest
        else some (some (inner.map marker.plug))
    else
      match resolver marker.name with
      | some values =>
        if values.isEmpty then some (some [marker.plug []])
        else some (some (values.map marker.plug))
      | none => rewriteFirst resolver expand rest

/-- Whether a pass over one of the results was more than the result itself. -/
def passChanged (result : Str) (resolved : List Str) : Bool :=
  1 < resolved.length || (resolved.length = 1 && resolved ≠ [result])

/-- The outer loop, with the number of passes that are left. -/
def repeatPasses (pass : Str → Option (List Str)) :
    (iterations : Nat) → (results : List Str) → Option (List Str)
  | 0, results => some results
  | iterations + 1, results =>
    match results.mapM pass with
    | none => none
    | some resolved =>
      let next := resolved.flatten.eraseDups
      if (results.zip resolved).any fun pair => passChanged pair.1 pair.2 then
        repeatPasses pass iterations next
      else some next

def maxIterations : Nat := 10

/-- `resolve_single_pass`, from the result at the current index on: a rewritten
result is scanned again, together with all its alternatives. -/
def singlePass (resolver : Resolver) : (fuel : Nat) → (results : List Str) → Option (List Str)
  | 0, _ => none
  | _ + 1, [] => some []
  | fuel + 1, text :: rest =>
    match rewriteFirst resolver
        (fun name => repeatPasses (fun inner => singlePass resolver fuel [inner]) maxIterations
          [name])
        (markers text) with
    | none => none
    | some none => (singlePass resolver fuel rest).map (text :: ·)
    | some (some rewritten) => singlePass resolver fuel (rewritten ++ rest)

def resolveAwsVariables (resolver : Resolver) (fuel : Nat) (pattern : Str) : Option (List Str) :=
  repeatPasses (fun text => singlePass resolver fuel [text]) maxIterations [pattern]

end Variables

end Rustfs.Policy

namespace Rustfs.Policy.Variables

open Option Library.Lists

/-- A marker the scan does not leave alone. -/
def isRewritten (resolver : Resolver) (marker : Marker) : Bool :=
  hasOpening marker.name || (resolver marker.name).isSome

def firstMarker (resolver : Resolver) (text : Str) : Option Marker :=
  (markers text).find? (isRewritten resolver)

/-- The values a known variable is replaced by; one without values is dropped. -/
def replacements (values : List Str) : List Str := if values.isEmpty then [[]] else values

mutual

/-- One replacement of the first marker. -/
inductive Substitutes (resolver : Resolver) : Str → Str → Prop
  | value {text : Str} {marker : Marker} {values : List Str} {value : Str}
      (first : firstMarker resolver text = some marker)
      (plain : hasOpening marker.name = false) (known : resolver marker.name = some values)
      (chosen : value ∈ replacements values) : Substitutes resolver text (marker.plug value)
  | nested {text : Str} {marker : Marker} {inner : Str}
      (first : firstMarker resolver text = some marker)
      (nested : hasOpening marker.name = true) (expanded : Expands resolver marker.name inner) :
      Substitutes resolver text (marker.plug inner)

inductive Expands (resolver : Resolver) : Str → Str → Prop
  | final {text : Str} (settled : firstMarker resolver text = none) : Expands resolver text text
  | step {text next last : Str} (substitutes : Substitutes resolver text next)
      (rest : Expands resolver next last) : Expands resolver text last

end

/-- What has to be expanded for a text: its replacements, and the name of a marker
that has markers in it. -/
def Continues (resolver : Resolver) (next text : Str) : Prop :=
  Substitutes resolver text next ∨
    ∃ marker, firstMarker resolver text = some marker ∧ hasOpening marker.name = true ∧
      next = marker.name

section Passes

variable {pass pass' : Str → Option (List Str)} {iterations : Nat} {results last : List Str}
  {text : Str}

theorem repeat_mono (grows : ∀ text found, pass text = some found → pass' text = some found)
    (done : repeatPasses pass iterations results = some last) :
    repeatPasses pass' iterations results = some last := by
  induction iterations generalizing results with
  | zero => exact done
  | succ iterations ih =>
    unfold repeatPasses at done ⊢
    cases resolved : results.mapM pass with
    | none =>
      rw [resolved] at done
      cases done
    | some found =>
      rw [resolved] at done
      have same : results.mapM pass' = some found := by
        rw [map_m_eq_some] at resolved ⊢
        exact resolved.imp fun text result => grows text result
      rw [same]
      dsimp only at done ⊢
      split at done
      · rename_i changed
        rw [if_pos changed]
        exact ih done
      · rename_i unchanged
        rw [if_neg unchanged]
        exact done

theorem repeat_nonempty (nonempty : ∀ text found, pass text = some found → found ≠ [])
    (started : results ≠ []) (done : repeatPasses pass iterations results = some last) :
    last ≠ [] := by
  induction iterations generalizing results with
  | zero =>
    cases done
    exact started
  | succ iterations ih =>
    unfold repeatPasses at done
    cases resolved : results.mapM pass with
    | none =>
      rw [resolved] at done
      cases done
    | some found =>
      rw [resolved] at done
      have filled : found.flatten.eraseDups ≠ [] := by
        rw [map_m_eq_some] at resolved
        cases resolved with
        | nil => exact absurd rfl started
        | @cons text first texts others isFirst =>
          obtain ⟨item, member⟩ := List.exists_mem_of_ne_nil _ (nonempty _ _ isFirst)
          apply List.ne_nil_of_mem (a := item)
          rw [List.mem_eraseDups]
          exact List.mem_flatten.2 ⟨first, List.mem_cons_self, member⟩
      dsimp only at done
      split at done
      · exact ih filled done
      · cases done
        exact filled

theorem passes_of_settled {found : List (List Str)}
    (settled : ∀ text ∈ results, ∀ found, pass text = some found → found = [text])
    (resolved : results.mapM pass = some found) : found = results.map fun text => [text] := by
  rw [map_m_eq_some] at resolved
  induction resolved with
  | nil => rfl
  | @cons text first texts others isFirst _ ih =>
    rw [List.map_cons, settled text List.mem_cons_self first isFirst,
      ih fun other member => settled other (List.mem_cons_of_mem _ member)]

theorem settled_unchanged (results : List Str) :
    ((results.zip (results.map fun text => [text])).any fun pair => passChanged pair.1 pair.2) =
      false := by
  induction results with
  | nil => rfl
  | cons text results ih =>
    rw [List.map_cons, List.zip_cons_cons, List.any_cons, ih, Bool.or_false]
    simp [passChanged]

theorem repeat_settled (settled : ∀ text ∈ results, ∀ found, pass text = some found → found = [text])
    (done : repeatPasses pass iterations results = some last) (text : Str) :
    text ∈ last ↔ text ∈ results := by
  cases iterations with
  | zero =>
    cases done
    rfl
  | succ iterations =>
    unfold repeatPasses at done
    cases resolved : results.mapM pass with
    | none =>
      rw [resolved] at done
      cases done
    | some found =>
      rw [resolved] at done
      obtain rfl := passes_of_settled settled resolved
      simp only [settled_unchanged, flatten_singletons, Bool.false_eq_true, if_false] at done
      cases done
      exact List.mem_eraseDups

theorem pass_single {found : List (List Str)} :
    [text].mapM pass = some found ↔ ∃ first, pass text = some first ∧ found = [first] := by
  rw [map_m_eq_some]
  constructor
  · rintro (_ | ⟨isFirst, _ | _⟩)
    exact ⟨_, isFirst, rfl⟩
  · rintro ⟨first, isFirst, rfl⟩
    exact .cons isFirst .nil

theorem repeat_single (settled : ∀ found, pass text = some found → ∀ result ∈ found, ∀ again,
      pass result = some again → again = [result])
    (done : repeatPasses pass (iterations + 1) [text] = some last) :
    ∃ found, pass text = some found ∧ ∀ result, result ∈ last ↔ result ∈ found := by
  unfold repeatPasses at done
  cases resolved : [text].mapM pass with
  | none =>
    rw [resolved] at done
    cases done
  | some found =>
    rw [resolved] at done
    obtain ⟨first, isFirst, rfl⟩ := pass_single.1 resolved
    refine ⟨first, isFirst, ?_⟩
    intro result
    simp only [List.flatten_cons, List.flatten_nil, List.append_nil] at done
    split at done
    · have kept := repeat_settled (fun item member => settled first isFirst item
        (List.mem_eraseDups.1 member)) done result
      rw [kept, List.mem_eraseDups]
    · cases done
      exact List.mem_eraseDups

theorem repeat_runs {found : List Str} (passed : pass text = some found)
    (settled : ∀ result ∈ found, pass result = some [result]) :
    ∃ last, repeatPasses pass (iterations + 1) [text] = some last := by
  unfold repeatPasses
  rw [pass_single.2 ⟨found, passed, rfl⟩]
  simp only [List.flatten_cons, List.flatten_nil, List.append_nil]
  split
  · cases iterations with
    | zero => exact ⟨_, rfl⟩
    | succ iterations =>
      have again : found.eraseDups.mapM pass =
          some (found.eraseDups.map fun result => [result]) := by
        rw [map_m_eq_some, List.forall₂_map_right_iff, List.forall₂_same]
        intro result member
        exact settled result (List.mem_eraseDups.1 member)
      unfold repeatPasses
      rw [again]
      simp only [settled_unchanged, Bool.false_eq_true, if_false]
      exact ⟨_, rfl⟩
  · exact ⟨_, rfl⟩

end Passes

section Scans

variable {resolver : Resolver} {expand expand' : Str → Option (List Str)} {text : Str}

/-- The texts a marker is replaced by, with the expansion of a name as it is given. -/
def alternatives (resolver : Resolver) (expand : Str → Option (List Str)) (marker : Marker) :
    Option (List Str) :=
  if hasOpening marker.name then (expand marker.name).map fun inner => inner.map marker.plug
  else some ((replacements ((resolver marker.name).getD [])).map marker.plug)

theorem rewrite_first_eq (nonempty : ∀ name inner, expand name = some inner → inner ≠ [])
    (found : List Marker) :
    rewriteFirst resolver expand found =
      match found.find? (isRewritten resolver) with
      | none => some none
      | some marker => (alternatives resolver expand marker).map some := by
  induction found with
  | nil => rfl
  | cons marker rest ih =>
    unfold rewriteFirst
    by_cases nested : hasOpening marker.name = true
    · have taken : isRewritten resolver marker = true := by
        unfold isRewritten
        rw [nested, Bool.true_or]
      rw [if_pos nested, List.find?_cons_of_pos taken]
      dsimp only
      unfold alternatives
      rw [if_pos nested]
      cases expanded : expand marker.name with
      | none => rfl
      | some inner =>
        dsimp only
        rw [if_neg]
        · rfl
        · simpa using nonempty _ _ expanded
    · rw [if_neg nested]
      cases known : resolver marker.name with
      | none =>
        have passed : ¬ isRewritten resolver marker = true := by
          unfold isRewritten
          simp [nested, known]
        rw [List.find?_cons_of_neg passed]
        exact ih
      | some values =>
        have taken : isRewritten resolver marker = true := by
          unfold isRewritten
          simp [known]
        rw [List.find?_cons_of_pos taken]
        dsimp only
        unfold alternatives replacements
        rw [if_neg nested, known, getD_some]
        split
        all_goals rfl

theorem rewrite_mono (grows : ∀ name inner, expand name = some inner → expand' name = some inner)
    {found : List Marker} {outcome : Option (List Str)}
    (done : rewriteFirst resolver expand found = some outcome) :
    rewriteFirst resolver expand' found = some outcome := by
  induction found with
  | nil => exact done
  | cons marker rest ih =>
    unfold rewriteFirst at done ⊢
    split at done
    · rename_i nested
      rw [if_pos nested]
      cases expanded : expand marker.name with
      | none =>
        rw [expanded] at done
        cases done
      | some inner =>
        rw [expanded] at done
        rw [grows _ _ expanded]
        dsimp only at done ⊢
        split at done
        · rename_i empty
          rw [if_pos empty]
          exact ih done
        · rename_i nonempty
          rw [if_neg nonempty]
          exact done
    · rename_i plain
      rw [if_neg plain]
      split at done
      · exact done
      · exact ih done

end Scans

variable {rewritten : List Str}

section SinglePass

variable {resolver : Resolver} {fuel : Nat} {text : Str} {results last : List Str}

def expandName (resolver : Resolver) (fuel : Nat) (name : Str) : Option (List Str) :=
  repeatPasses (fun inner => singlePass resolver fuel [inner]) maxIterations [name]

theorem single_pass_cons (resolver : Resolver) (fuel : Nat) (text : Str) (rest : List Str) :
    singlePass resolver (fuel + 1) (text :: rest) =
      match rewriteFirst resolver (expandName resolver fuel) (markers text) with
      | none => none
      | some none => (singlePass resolver fuel rest).map (text :: ·)
      | some (some rewritten) => singlePass resolver fuel (rewritten ++ rest) := rfl

theorem single_pass_mono {fuel' : Nat} (more : fuel ≤ fuel')
    (done : singlePass resolver fuel results = some last) :
    singlePass resolver fuel' results = some last := by
  induction fuel generalizing fuel' results last with
  | zero => cases done
  | succ fuel ih =>
    obtain ⟨fuel', rfl⟩ : ∃ smaller, fuel' = smaller + 1 := ⟨fuel' - 1, by omega⟩
    have less : fuel ≤ fuel' := by omega
    cases results with
    | nil => exact done
    | cons text rest =>
      rw [single_pass_cons] at done ⊢
      cases scanned : rewriteFirst resolver (expandName resolver fuel) (markers text) with
      | none =>
        rw [scanned] at done
        cases done
      | some outcome =>
        rw [scanned] at done
        have same : rewriteFirst resolver (expandName resolver fuel') (markers text) =
            some outcome := by
          apply rewrite_mono _ scanned
          intro name inner expanded
          exact repeat_mono (fun _ _ passed => ih less passed) expanded
        rw [same]
        cases outcome with
        | none =>
          obtain ⟨others, passed, rfl⟩ := map_eq_some_iff.1 done
          rw [ih less passed]
          rfl
        | some rewritten => exact ih less done

theorem rewritten_nonempty {expand : Str → Option (List Str)} {found : List Marker}
    (scanned : rewriteFirst resolver expand found = some (some rewritten)) : rewritten ≠ [] := by
  induction found with
  | nil => cases scanned
  | cons marker rest ih =>
    unfold rewriteFirst at scanned
    split at scanned
    · split at scanned
      · cases scanned
      · split at scanned
        · exact ih scanned
        · rename_i nonempty
          cases scanned
          simpa using nonempty
    · split at scanned
      · split at scanned
        · cases scanned
          simp
        · rename_i nonempty
          cases scanned
          simpa using nonempty
      · exact ih scanned

theorem single_pass_nonempty (started : results ≠ [])
    (done : singlePass resolver fuel results = some last) : last ≠ [] := by
  induction fuel generalizing results last with
  | zero => cases done
  | succ fuel ih =>
    cases results with
    | nil => exact absurd rfl started
    | cons text rest =>
      rw [single_pass_cons] at done
      split at done
      · cases done
      · obtain ⟨others, _, rfl⟩ := map_eq_some_iff.1 done
        simp
      · rename_i rewritten scanned
        apply ih _ done
        simp [rewritten_nonempty scanned]

theorem expand_name_nonempty (name : Str) (inner : List Str)
    (expanded : expandName resolver fuel name = some inner) : inner ≠ [] :=
  repeat_nonempty (fun _ _ passed => single_pass_nonempty (by simp) passed) (by simp) expanded

theorem single_pass_step (resolver : Resolver) (fuel : Nat) (text : Str) (rest : List Str) :
    singlePass resolver (fuel + 1) (text :: rest) =
      match firstMarker resolver text with
      | none => (singlePass resolver fuel rest).map (text :: ·)
      | some marker =>
        match alternatives resolver (expandName resolver fuel) marker with
        | none => none
        | some rewritten => singlePass resolver fuel (rewritten ++ rest) := by
  rw [single_pass_cons, rewrite_first_eq expand_name_nonempty]
  unfold firstMarker
  cases (markers text).find? (isRewritten resolver) with
  | none => rfl
  | some marker =>
    cases found : alternatives resolver (expandName resolver fuel) marker with
    | none | some rewritten => simp [found]

theorem single_pass_nil (done : singlePass resolver fuel [] = some last) : last = [] := by
  cases fuel with
  | zero => cases done
  | succ fuel =>
    cases done
    rfl

theorem single_pass_settled (settled : firstMarker resolver text = none)
    (done : singlePass resolver fuel [text] = some last) : last = [text] := by
  cases fuel with
  | zero => cases done
  | succ fuel =>
    rw [single_pass_step, settled] at done
    obtain ⟨others, passed, rfl⟩ := map_eq_some_iff.1 done
    rw [single_pass_nil passed]

end SinglePass

section Runs

variable {resolver : Resolver} {fuel : Nat} {text next : Str} {marker : Marker} {name : Str}
  {fuel' : Nat} {results : List Str}

theorem expands_settled {first last : Str} :
    Expands resolver first last → firstMarker resolver last = none
  | .final settled => settled
  | .step _ rest => expands_settled rest

theorem first_rewritten (first : firstMarker resolver text = some marker)
    (plain : hasOpening marker.name = false) : ∃ values, resolver marker.name = some values := by
  have taken : isRewritten resolver marker = true := List.find?_some first
  unfold isRewritten at taken
  rw [plain, Bool.false_or] at taken
  exact isSome_iff_exists.1 taken

/-- The replacements of a text are what a scan puts in its place, if the expansion
of a name finds its expansions. -/
theorem substitutes_iff {expand : Str → Option (List Str)}
    (complete : ∀ inner, expand marker.name = some inner →
      ∀ last, last ∈ inner ↔ Expands resolver marker.name last)
    (first : firstMarker resolver text = some marker)
    (scanned : alternatives resolver expand marker = some rewritten) :
    Substitutes resolver text next ↔ next ∈ rewritten := by
  unfold alternatives at scanned
  by_cases nested : hasOpening marker.name = true
  · rw [if_pos nested] at scanned
    obtain ⟨inner, expanded, rfl⟩ := map_eq_some_iff.1 scanned
    rw [List.mem_map]
    constructor
    · intro substitutes
      cases substitutes with
      | value first' plain known chosen =>
        cases first'.symm.trans first
        rw [nested] at plain
        cases plain
      | nested first' nested' expands =>
        cases first'.symm.trans first
        exact ⟨_, (complete inner expanded _).2 expands, rfl⟩
    · rintro ⟨last, member, rfl⟩
      exact .nested first nested ((complete inner expanded last).1 member)
  · have plain : hasOpening marker.name = false := by simpa using nested
    rw [if_neg nested] at scanned
    obtain ⟨values, known⟩ := first_rewritten first plain
    rw [known, getD_some] at scanned
    cases scanned
    rw [List.mem_map]
    constructor
    · intro substitutes
      cases substitutes with
      | value first' plain' known' chosen =>
        cases first'.symm.trans first
        cases known'.symm.trans known
        exact ⟨_, chosen, rfl⟩
      | nested first' nested' expands =>
        cases first'.symm.trans first
        exact absurd nested' nested
    · rintro ⟨value, chosen, rfl⟩
      exact .value first plain known chosen

theorem expands_iff_of_first {last : Str} (first : firstMarker resolver text = some marker) :
    Expands resolver text last ↔ ∃ next, Substitutes resolver text next ∧ Expands resolver next last := by
  constructor
  · intro expands
    cases expands with
    | final settled =>
      rw [first] at settled
      cases settled
    | step substitutes rest => exact ⟨_, substitutes, rest⟩
  · rintro ⟨next, substitutes, rest⟩
    exact .step substitutes rest

theorem settled_accessible (settled : firstMarker resolver text = none) :
    Acc (Continues resolver) text := by
  constructor
  rintro next (substitutes | ⟨marker, first, _⟩)
  · cases substitutes with
    | value first | nested first =>
      rw [settled] at first
      cases first
  · rw [settled] at first
    cases first

theorem expands_of_settled {last : Str} (settled : firstMarker resolver text = none) :
    Expands resolver text last ↔ last = text := by
  constructor
  · intro expands
    cases expands with
    | final => rfl
    | step substitutes =>
      have first : ∃ marker, firstMarker resolver text = some marker := by
        cases substitutes with
        | value first | nested first => exact ⟨_, first⟩
      obtain ⟨marker, first⟩ := first
      rw [settled] at first
      cases first
  · rintro rfl
    exact .final settled

def PassSound (resolver : Resolver) (results last : List Str) : Prop :=
  (∀ text ∈ results, Acc (Continues resolver) text) ∧
    ∀ final, final ∈ last ↔ ∃ text ∈ results, Expands resolver text final

theorem name_sound (sound : ∀ results last, singlePass resolver fuel results = some last →
      PassSound resolver results last) {inner : List Str}
    (expanded : expandName resolver fuel name = some inner) :
    Acc (Continues resolver) name ∧ ∀ last, last ∈ inner ↔ Expands resolver name last := by
  have settled : ∀ found, singlePass resolver fuel [name] = some found → ∀ result ∈ found,
      ∀ again, singlePass resolver fuel [result] = some again → again = [result] := by
    intro found passed result member again
    obtain ⟨text, isName, expands⟩ := ((sound _ _ passed).2 result).1 member
    exact single_pass_settled (expands_settled expands)
  obtain ⟨found, passed, same⟩ := repeat_single settled expanded
  obtain ⟨accessible, complete⟩ := sound _ _ passed
  refine ⟨accessible name List.mem_cons_self, ?_⟩
  intro last
  rw [same, complete]
  simp

theorem single_pass_sound (results last : List Str)
    (done : singlePass resolver fuel results = some last) : PassSound resolver results last := by
  induction fuel generalizing results last with
  | zero => cases done
  | succ fuel ih =>
    cases results with
    | nil =>
      cases done
      exact ⟨by simp, by simp⟩
    | cons text rest =>
      rw [single_pass_step] at done
      cases first : firstMarker resolver text with
      | none =>
        rw [first] at done
        obtain ⟨others, passed, rfl⟩ := map_eq_some_iff.1 done
        obtain ⟨accessible, complete⟩ := ih rest others passed
        refine ⟨List.forall_mem_cons.2 ⟨settled_accessible first, accessible⟩, ?_⟩
        intro final
        rw [List.mem_cons, complete]
        simp [expands_of_settled first]
      | some marker =>
        rw [first] at done
        dsimp only at done
        cases scanned : alternatives resolver (expandName resolver fuel) marker with
        | none =>
          rw [scanned] at done
          cases done
        | some rewritten =>
          rw [scanned] at done
          obtain ⟨accessible, complete⟩ := ih (rewritten ++ rest) last done
          have replaced : ∀ next, Substitutes resolver text next ↔ next ∈ rewritten :=
            fun next => substitutes_iff (fun inner expanded => (name_sound ih expanded).2)
              first scanned
          refine ⟨List.forall_mem_cons.2 ⟨⟨text, ?_⟩, ?_⟩, ?_⟩
          · rintro next (substitutes | ⟨marker', first', nested, rfl⟩)
            · exact accessible next (List.mem_append_left _ ((replaced next).1 substitutes))
            · cases first'.symm.trans first
              unfold alternatives at scanned
              rw [if_pos nested] at scanned
              obtain ⟨inner, expanded, _⟩ := map_eq_some_iff.1 scanned
              exact (name_sound ih expanded).1
          · intro other member
            exact accessible other (List.mem_append_right _ member)
          · intro final
            rw [complete]
            simp only [List.mem_append, List.mem_cons, or_and_right, exists_or,
              exists_eq_left, expands_iff_of_first first, replaced]

theorem expand_name_mono (more : fuel ≤ fuel') {inner : List Str}
    (expanded : expandName resolver fuel name = some inner) :
    expandName resolver fuel' name = some inner :=
  repeat_mono (fun _ _ passed => single_pass_mono more passed) expanded

theorem alternatives_mono (more : fuel ≤ fuel')
    (scanned : alternatives resolver (expandName resolver fuel) marker = some rewritten) :
    alternatives resolver (expandName resolver fuel') marker = some rewritten := by
  unfold alternatives at scanned ⊢
  split at scanned
  · rename_i nested
    obtain ⟨inner, expanded, rfl⟩ := map_eq_some_iff.1 scanned
    rw [if_pos nested, expand_name_mono more expanded]
    rfl
  · rename_i plain
    rw [if_neg plain]
    exact scanned

theorem single_pass_append {before after : Nat} {left right leftLast rightLast : List Str}
    (leftDone : singlePass resolver before left = some leftLast)
    (rightDone : singlePass resolver after right = some rightLast) :
    singlePass resolver (before + after) (left ++ right) = some (leftLast ++ rightLast) := by
  induction before generalizing left leftLast with
  | zero => cases leftDone
  | succ before ih =>
    cases left with
    | nil =>
      cases leftDone
      exact single_pass_mono (by omega) rightDone
    | cons text rest =>
      rw [Nat.succ_add, List.cons_append, single_pass_step]
      rw [single_pass_step] at leftDone
      cases first : firstMarker resolver text with
      | none =>
        rw [first] at leftDone
        obtain ⟨others, passed, rfl⟩ := map_eq_some_iff.1 leftDone
        rw [ih passed]
        rfl
      | some marker =>
        rw [first] at leftDone
        dsimp only at leftDone ⊢
        cases scanned : alternatives resolver (expandName resolver before) marker with
        | none =>
          rw [scanned] at leftDone
          cases leftDone
        | some rewritten =>
          rw [scanned] at leftDone
          rw [alternatives_mono (Nat.le_add_right before after) scanned]
          dsimp only at leftDone ⊢
          rw [← List.append_assoc]
          exact ih leftDone

theorem single_pass_list
    (runs : ∀ text ∈ results, ∃ fuel last, singlePass resolver fuel [text] = some last) :
    ∃ fuel last, singlePass resolver fuel results = some last := by
  induction results with
  | nil => exact ⟨1, [], rfl⟩
  | cons text rest ih =>
    obtain ⟨before, first, firstDone⟩ := runs text List.mem_cons_self
    obtain ⟨after, others, restDone⟩ :=
      ih fun other member => runs other (List.mem_cons_of_mem _ member)
    exact ⟨_, _, single_pass_append firstDone restDone⟩

theorem single_pass_of_settled (settled : firstMarker resolver text = none) :
    singlePass resolver (fuel + 2) [text] = some [text] := by
  rw [single_pass_step, settled]
  rfl

theorem expand_name_runs {found : List Str}
    (passed : singlePass resolver fuel [name] = some found) :
    ∃ last, expandName resolver (fuel + 2) name = some last := by
  apply repeat_runs (single_pass_mono (Nat.le_add_right fuel 2) passed)
  intro result member
  obtain ⟨_, _, expands⟩ := ((single_pass_sound _ _ passed).2 result).1 member
  exact single_pass_of_settled (expands_settled expands)

theorem alternatives_runs (named : hasOpening marker.name = true →
      ∃ fuel last, singlePass resolver fuel [marker.name] = some last) :
    ∃ fuel rewritten, alternatives resolver (expandName resolver fuel) marker = some rewritten := by
  unfold alternatives
  by_cases nested : hasOpening marker.name = true
  · obtain ⟨fuel, found, passed⟩ := named nested
    obtain ⟨inner, expanded⟩ := expand_name_runs passed
    refine ⟨fuel + 2, inner.map marker.plug, ?_⟩
    rw [if_pos nested, expanded]
    rfl
  · exact ⟨0, (replacements ((resolver marker.name).getD [])).map marker.plug, if_neg nested⟩

theorem single_pass_runs (finite : Acc (Continues resolver) text) :
    ∃ fuel last, singlePass resolver fuel [text] = some last := by
  induction finite with
  | intro text _ ih =>
    cases first : firstMarker resolver text with
    | none => exact ⟨2, [text], single_pass_of_settled first⟩
    | some marker =>
      have named : hasOpening marker.name = true →
          ∃ fuel last, singlePass resolver fuel [marker.name] = some last :=
        fun nested => ih marker.name (.inr ⟨marker, first, nested, rfl⟩)
      obtain ⟨before, rewritten, scanned⟩ := alternatives_runs named
      have replaced : ∀ next, Substitutes resolver text next ↔ next ∈ rewritten :=
        fun next => substitutes_iff
          (fun inner expanded => (name_sound single_pass_sound expanded).2) first scanned
      have each : ∀ next ∈ rewritten, ∃ fuel last, singlePass resolver fuel [next] = some last :=
        fun next member => ih next (.inl ((replaced next).2 member))
      obtain ⟨after, last, done⟩ := single_pass_list each
      refine ⟨before + after + 1, last, ?_⟩
      rw [single_pass_step, first]
      dsimp only
      rw [alternatives_mono (Nat.le_add_right before after) scanned]
      dsimp only
      rw [List.append_nil]
      exact single_pass_mono (Nat.le_add_left after before) done

theorem resolves_of_finite (finite : Acc (Continues resolver) text) :
    ∃ fuel results, resolveAwsVariables resolver fuel text = some results := by
  obtain ⟨fuel, found, passed⟩ := single_pass_runs finite
  exact ⟨fuel + 2, expand_name_runs passed⟩

theorem resolves_sound (done : resolveAwsVariables resolver fuel text = some results) :
    Acc (Continues resolver) text ∧ ∀ last, last ∈ results ↔ Expands resolver text last :=
  name_sound single_pass_sound done

theorem resolves_mono (more : fuel ≤ fuel')
    (done : resolveAwsVariables resolver fuel text = some results) :
    resolveAwsVariables resolver fuel' text = some results :=
  expand_name_mono more done

/-- The expansion of a pattern ends exactly when no chain of replacements that starts at
it is endless. The source counts its passes, but a single pass already follows such a
chain to its end. -/
theorem resolve_ends_iff (resolver : Resolver) (pattern : Str) :
    (∃ fuel results, resolveAwsVariables resolver fuel pattern = some results) ↔
      ¬ ∃ chain : Nat → Str,
        chain 0 = pattern ∧ ∀ index, Continues resolver (chain (index + 1)) (chain index) := by
  rw [← not_acc_iff_exists_descending_chain, not_not]
  constructor
  · rintro ⟨fuel, results, done⟩
    exact (resolves_sound done).1
  · exact resolves_of_finite

/-- An account whose name is the marker that stands for it. -/
def selfNamed : VariableContext :=
  { VariableContext.new with username := some (str "$\x7baws:username\x7d") }

theorem self_named_continues :
    Continues (selfNamed.resolveMultiple ⟨[], []⟩) (str "$\x7baws:username\x7d")
      (str "$\x7baws:username\x7d") := by
  let marker : Marker := ⟨[], str "aws:username", []⟩
  have first : firstMarker (selfNamed.resolveMultiple ⟨[], []⟩) (str "$\x7baws:username\x7d") =
      some marker := by
    decide
  have same : marker.plug (str "$\x7baws:username\x7d") = str "$\x7baws:username\x7d" := by
    decide
  have substituted := Substitutes.value first (by decide) rfl List.mem_cons_self
  exact .inl (same ▸ substituted)

theorem self_named_never_ends : ¬ ∀ (context : VariableContext) (clock : Clock) (pattern : Str),
    ∃ fuel results,
      resolveAwsVariables (context.resolveMultiple clock) fuel pattern = some results := by
  intro ends
  obtain ⟨fuel, results, done⟩ := ends selfNamed ⟨[], []⟩ (str "$\x7baws:username\x7d")
  have finite := (resolves_sound done).1
  rw [← not_not (a := Acc _ _), not_acc_iff_exists_descending_chain] at finite
  exact finite ⟨fun _ => str "$\x7baws:username\x7d", rfl, fun _ => self_named_continues⟩

end Runs

end Rustfs.Policy.Variables
