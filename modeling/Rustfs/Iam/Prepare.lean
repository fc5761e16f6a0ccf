import Rustfs.Iam.ColdCache
import Rustfs.Policy.ExistingObjectTag

/-!
# Prepared authorization

`prepare_auth` of `iam/src/sys.rs`: a request is resolved to a mode with the policies that the
mode evaluates, and to a hint whether their evaluation may need the tags of the object. What
the identity store answers is a parameter, for any one state of it.

`try_eval_prepared` of `iam/src/sys.rs`. The policies of a service account's parent are evaluated
for the parent, and the hint of the preparation is about the account itself. Log events are left
out.
-/

namespace Rustfs.Iam

open Option Policy Library.ShortCircuit

def comma : UInt8 := 0x2c

/-- The white space of `str::trim`, encoded. -/
def whitespaceTexts : List Str :=
  ["\t", "\n", "\x0b", "\x0c", "\r", " ", "\u0085", "\u00a0", "\u1680", "\u2000", "\u2001", "\u2002",
    "\u2003", "\u2004", "\u2005", "\u2006", "\u2007", "\u2008", "\u2009", "\u200a", "\u2028", "\u2029",
    "\u202f", "\u205f", "\u3000"].map str

def dropSpaces (spaces : List Str) : (bound : Nat) → Str → Str
  | 0, text => text
  | bound + 1, text =>
    match spaces.find? fun space => space.isPrefixOf text with
    | some space => dropSpaces spaces bound (text.drop space.length)
    | none => text

def trim (text : Str) : Str :=
  let front := dropSpaces whitespaceTexts text.length text
  (dropSpaces (whitespaceTexts.map List.reverse) front.length front.reverse).reverse

/-- `MappedPolicy::to_slice`. -/
def toSlice (names : Str) : List Str := partsOf comma (fun name => (trim name).isEmpty) names

/-- `join(",")`. -/
def joinNames (names : List Str) : Str := [comma].intercalate names

def boolValue : Value → Option Bool
  | .bool value => some value
  | _ => none

def claimText (claims : Claims) (name : String) : Option Str :=
  (claims.lookup (str name)).bind stringValue

def claimFlag (claims : Claims) (name : String) : Bool :=
  ((claims.lookup (str name)).bind boolValue).getD false

def policyNameClaim : String := "policy"
def sessionPolicyName : String := "sessionPolicy"
def sessionPolicyNameExtracted : String := "sessionPolicy-extracted"
def verifiedFederatedPolicyClaim : String := "x-rustfs-internal-federated-policy"
def federatedPolicyBoundaryClaim : String := "x-rustfs-internal-federated-boundary"
def oidcVirtualParentClaim : String := "x-rustfs-internal-oidc-parent"
def siteReplicatorClaim : String := "site-replicator"
def siteReplicatorServiceAccount : Str := str "site-replicator-0"
def inheritedPolicyType : Str := str "inherited-policy"
def iamPolicyClaimNameSa : String := "sa-policy"
def maxSvcsessionPolicySize : Nat := 4096

def isAsciiAlphanumeric (byte : UInt8) : Bool :=
  (0x30 ≤ byte && byte ≤ 0x39) || (0x41 ≤ byte && byte ≤ 0x5a) || (0x61 ≤ byte && byte ≤ 0x7a)

/-- Letters and digits, at least one, and the four signs. -/
def isSafeClaimPolicyName (policy : Str) : Bool :=
  policy.all (fun byte => isAsciiAlphanumeric byte || (str "_-:.").contains byte) &&
    policy.any isAsciiAlphanumeric

def safeClaimPolicyNames (claims : Claims) : List Str :=
  match claimText claims policyNameClaim with
  | none => []
  | some policies => ((policies.splitOn comma).map trim).filter fun name =>
    !name.isEmpty && isSafeClaimPolicyName name

def isRustfsOidcClaims (claims : Claims) : Bool :=
  claimText claims "iss" = some (str "rustfs-oidc") &&
    (claimText claims "oidc_provider").any (fun provider => !provider.isEmpty) &&
    (claimText claims "sub").any fun subject => !subject.isEmpty

def isVerifiedFederatedSession (claims : Claims) (parentUser : Str) : Bool :=
  !parentUser.isEmpty && isRustfsOidcClaims claims && claimText claims "parent" = some parentUser &&
    claimText claims oidcVirtualParentClaim = some parentUser

def isVerifiedOrLegacyFederatedSession (claims : Claims) (parentUser : Str) : Bool :=
  isVerifiedFederatedSession claims parentUser ||
    (!VariableContext.hasClaim claims oidcVirtualParentClaim && !parentUser.isEmpty &&
      isRustfsOidcClaims claims && claimText claims "parent" = some parentUser)

def isValidVerifiedFederatedPolicy (claims : Claims) (parentUser : Str) : Bool :=
  claimFlag claims verifiedFederatedPolicyClaim &&
    isVerifiedOrLegacyFederatedSession claims parentUser &&
    (claimText claims policyNameClaim).any fun policies =>
      ((policies.splitOn comma).map trim).all fun policy =>
        !policy.isEmpty && isSafeClaimPolicyName policy

inductive PolicyPluginState
  | disabled
  | initializing
  | ready
  | failed
  deriving DecidableEq

inductive PreparedSessionPolicy
  | none
  | denyAll
  | policy (subPolicy : Policy)

inductive PreparedServicePolicyMode
  | inherited
  | sessionBound
  deriving DecidableEq

inductive PreparedIamMode
  | opa
  | owner
  | deny
  | regular (combinedPolicy : Policy)
  | sts (isOwner : Bool) (combinedPolicy : Policy) (sessionPolicy : PreparedSessionPolicy)
  | serviceAccount (isOwner bypassParentPolicy : Bool) (parentUser : Str) (combinedPolicy : Policy)
      (federatedBoundary : Option Policy) (mode : PreparedServicePolicyMode)
      (sessionPolicy : PreparedSessionPolicy)

structure PreparedIamAuth where
  needsExistingObjectTag : Bool
  mode : PreparedIamMode

def PolicyPluginState.preparedIamAuth : PolicyPluginState → Option PreparedIamAuth
  | ready => some ⟨true, .opa⟩
  | initializing => some ⟨false, .deny⟩
  | failed => some ⟨false, .deny⟩
  | disabled => none

def PreparedSessionPolicy.needsExistingObjectTagForArgs (clock : Clock) (fuel : Nat) (args : Args) :
    PreparedSessionPolicy → Option Bool
  | policy subPolicy => policyNeedsExistingObjectTagForArgs clock fuel subPolicy args
  | none => some false
  | denyAll => some false

def PreparedIamMode.needsExistingObjectTagForArgs (clock : Clock) (fuel : Nat) (args : Args) :
    PreparedIamMode → Option Bool
  | opa => some true
  | owner => some false
  | deny => some false
  | regular combinedPolicy => policyNeedsExistingObjectTagForArgs clock fuel combinedPolicy args
  | sts _ combinedPolicy sessionPolicy =>
    orAlso (policyNeedsExistingObjectTagForArgs clock fuel combinedPolicy args)
      (sessionPolicy.needsExistingObjectTagForArgs clock fuel args)
  | serviceAccount _ _ _ combinedPolicy federatedBoundary mode sessionPolicy =>
    orAlso (policyNeedsExistingObjectTagForArgs clock fuel combinedPolicy args)
      (orAlso
        (match federatedBoundary with
        | some policy => policyNeedsExistingObjectTagForArgs clock fuel policy args
        | none => some false)
        (if mode = .sessionBound then sessionPolicy.needsExistingObjectTagForArgs clock fuel args
        else some false))

def PreparedIamMode.combinedPolicyForView : PreparedIamMode → Option Policy
  | regular combinedPolicy => some combinedPolicy
  | sts _ combinedPolicy _ => some combinedPolicy
  | serviceAccount _ _ _ combinedPolicy _ _ _ => some combinedPolicy
  | _ => none

/-- What an authorization reads; `none` is an error of a lookup that the caller drops. -/
structure IamSys where
  policyPluginState : PolicyPluginState
  isServiceAccount : Str → Option (Bool × Str)
  isTempUser : Str → Option (Bool × Str)
  policyDbGet : Str → Option (List Str) → Option (List Str)
  /-- The names that were found, joined, and the merged policy. -/
  mergePolicies : Str → Str × Policy
  /-- The policies of the role with this name, or `none` where the name is no ARN. -/
  rolePolicies : Str → Option Str
  /-- The groups in the credentials of a user that is there. -/
  userGroups : Str → Option (Option (List Str))
  isRootAccessKey : Str → Bool
  base64 : Str → Option Str
  isUtf8 : Str → Bool
  /-- `Policy::parse_config`, with the `ID` of the policy. -/
  parseConfig : Str → Option (Str × Policy)
  loadBucketTags : Str → Except IamError (List (Str × Str))
  /-- The answer of the policy plugin. -/
  opaIsAllowed : Args → Bool

def Policy.default : Policy := ⟨[], []⟩

variable {mode : PreparedIamMode} {combinedPolicy : Policy}

namespace IamSys

variable (self : IamSys) (clock : Clock) (fuel : Nat) {parentUser : Str}

def extractSessionPolicyText (claims : Claims) : Option Str :=
  match claimText claims sessionPolicyNameExtracted with
  | some policy => some policy
  | none => ((claimText claims sessionPolicyName).bind self.base64).filter self.isUtf8

def prepareSessionPolicy (claims : Claims) (emptyIsNone : Bool) : PreparedSessionPolicy :=
  match self.extractSessionPolicyText claims with
  | none => .none
  | some text =>
    match self.parseConfig text with
    | none => .denyAll
    | some (id, subPolicy) =>
      if emptyIsNone then
        if subPolicy.version.isEmpty && subPolicy.statements.isEmpty && id.isEmpty then .none
        else .policy subPolicy
      else if subPolicy.version.isEmpty then .denyAll
      else .policy subPolicy

def decodeSessionPolicy (encoded : Str) : Option Policy :=
  match self.base64 encoded with
  | none => none
  | some bytes =>
    if maxSvcsessionPolicySize < bytes.length then none
    else
      match self.parseConfig bytes with
      | none => none
      | some (_, policy) => if policy.version.isEmpty then none else some policy

def federatedPolicyBoundary (claims : Claims) : Option (Option Policy) :=
  match claims.lookup (str federatedPolicyBoundaryClaim) with
  | none => some none
  | some boundary => ((stringValue boundary).bind self.decodeSessionPolicy).map some

def oidcPolicyNames (claims : Claims) (parentUser : Str) (groups : Option (List Str)) :
    Option (List Str) :=
  match self.policyDbGet parentUser groups with
  | none => none
  | some mapped =>
    let policyNames := if mapped.isEmpty then safeClaimPolicyNames claims else mapped
    if policyNames.isEmpty then none else some policyNames

def signedOidcPolicyNames (claims : Claims) : Option (List Str) :=
  let policyNames := safeClaimPolicyNames claims
  if policyNames.isEmpty then none else some policyNames

def verifiedFederatedPolicyNames (claims : Claims) (parentUser : Str) (groups : Option (List Str)) :
    Option (Option (List Str)) :=
  if !isRustfsOidcClaims claims then some none
  else if !isVerifiedOrLegacyFederatedSession claims parentUser then none
  else if isVerifiedFederatedSession claims parentUser then (signedOidcPolicyNames claims).map some
  else (self.oidcPolicyNames claims parentUser groups).map some

/-- The owner is the root account, and never a federated one. -/
def isOwner (claims : Claims) (parentUser : Str) : Bool :=
  !isRustfsOidcClaims claims && self.isRootAccessKey parentUser

def deniedAuth : PreparedIamAuth := ⟨false, .deny⟩

def withHint (args : Args) (mode : PreparedIamMode) : Option PreparedIamAuth :=
  (mode.needsExistingObjectTagForArgs clock fuel args).map fun needs => ⟨needs, mode⟩

def hasUnresolved (policies : List Str) (resolved : Str) : Bool :=
  policies.any fun name => !(toSlice resolved).contains name

def prepareRegularAuth (args : Args) (groups : Option (List Str)) : Option PreparedIamAuth :=
  match self.policyDbGet args.account groups with
  | none => some deniedAuth
  | some policies =>
    if policies.isEmpty then some deniedAuth
    else
      let merged := self.mergePolicies (joinNames policies)
      if args.denyOnly && hasUnresolved policies merged.1 then some deniedAuth
      else withHint clock fuel args (.regular merged.2)

def effectiveGroups (parentUser : Str) (groups : Option (List Str)) : Option (List Str) :=
  if groups.any fun names => !names.isEmpty then groups else (self.userGroups parentUser).getD none

/-- The names of the policies of an account that is not federated. -/
def stsPolicies (args : Args) (parentUser : Str) (groups : Option (List Str)) : Option (List Str) :=
  if self.isOwner args.claims parentUser then some []
  else
    match claimText args.claims "roleArn" with
    | some arn => (self.rolePolicies arn).map toSlice
    | none => some ((self.policyDbGet parentUser (self.effectiveGroups parentUser groups)).getD [])

def stsCombinedPolicy (args : Args) (parentUser : Str) (policyNames : List Str) : Option Policy :=
  let verified := isVerifiedFederatedSession args.claims parentUser
  if self.isOwner args.claims parentUser then some Policy.default
  else if policyNames.isEmpty then if args.denyOnly then some Policy.default else none
  else
    let merged := self.mergePolicies (joinNames policyNames)
    if merged.1.isEmpty then if args.denyOnly && !verified then some Policy.default else none
    else if hasUnresolved policyNames merged.1 && verified then none
    else some merged.2

def prepareStsAuth (args : Args) (parentUser : Str) (groups : Option (List Str)) :
    Option PreparedIamAuth :=
  match self.verifiedFederatedPolicyNames args.claims parentUser groups with
  | none => some deniedAuth
  | some federated =>
    let policies := if federated.isSome then some [] else self.stsPolicies args parentUser groups
    match policies with
    | none => some deniedAuth
    | some policies =>
      let named := federated.getD policies
      let policyNames :=
        if !self.isOwner args.claims parentUser && named.isEmpty && !isRustfsOidcClaims args.claims
        then safeClaimPolicyNames args.claims else named
      match self.stsCombinedPolicy args parentUser policyNames with
      | none => some deniedAuth
      | some combinedPolicy =>
        withHint clock fuel args (.sts (self.isOwner args.claims parentUser) combinedPolicy
          (self.prepareSessionPolicy args.claims false))

/-- The claims name the parent, and say where the policy of the account comes from. -/
def serviceMode (claims : Claims) (parentUser : Str) : Option PreparedServicePolicyMode :=
  if claimText claims "parent" ≠ some parentUser then none
  else (claimText claims iamPolicyClaimNameSa).map fun policyType =>
    if policyType = inheritedPolicyType then .inherited else .sessionBound

def serviceBoundary (claims : Claims) (parentUser : Str) : Option (Option Policy) :=
  if VariableContext.hasClaim claims verifiedFederatedPolicyClaim then
    if isValidVerifiedFederatedPolicy claims parentUser then self.federatedPolicyBoundary claims
    else none
  else if isRustfsOidcClaims claims then none
  else some none

/-- The account of the site replication, which its own policy alone bounds. -/
def bypassesParentPolicy (args : Args) (mode : PreparedServicePolicyMode) : Bool :=
  args.account = siteReplicatorServiceAccount && claimFlag args.claims siteReplicatorClaim &&
    mode = .sessionBound &&
    match self.prepareSessionPolicy args.claims true with
    | .policy _ => true
    | _ => false

def servicePolicies (args : Args) (parentUser : Str) (groups : Option (List Str)) : Option (List Str) :=
  if VariableContext.hasClaim args.claims verifiedFederatedPolicyClaim then
    some (safeClaimPolicyNames args.claims)
  else
    match claimText args.claims "roleArn" with
    | some arn => (self.rolePolicies arn).map toSlice
    | none => self.policyDbGet parentUser groups

def serviceCombinedPolicy (args : Args) (parentUser : Str) (groups : Option (List Str))
    (mode : PreparedServicePolicyMode) : Option Policy :=
  if self.isOwner args.claims parentUser || self.bypassesParentPolicy args mode then
    some Policy.default
  else
    match self.servicePolicies args parentUser groups with
    | none => none
    | some svcPolicies =>
      if svcPolicies.isEmpty then none
      else
        let merged := self.mergePolicies (joinNames svcPolicies)
        if merged.1.isEmpty ||
            (VariableContext.hasClaim args.claims verifiedFederatedPolicyClaim &&
              hasUnresolved svcPolicies merged.1) then none
        else some merged.2

def prepareServiceAccountAuth (args : Args) (parentUser : Str) (groups : Option (List Str)) :
    Option PreparedIamAuth :=
  match serviceMode args.claims parentUser with
  | none => some deniedAuth
  | some mode =>
    match self.serviceBoundary args.claims parentUser with
    | none => some deniedAuth
    | some federatedBoundary =>
      match self.serviceCombinedPolicy args parentUser groups mode with
      | none => some deniedAuth
      | some combinedPolicy =>
        withHint clock fuel args (.serviceAccount (self.isOwner args.claims parentUser)
          (self.bypassesParentPolicy args mode) parentUser combinedPolicy federatedBoundary mode
          (self.prepareSessionPolicy args.claims true))

def prepareAuth (args : Args) (groups : Option (List Str)) : Option PreparedIamAuth :=
  if args.isOwner then some ⟨false, .owner⟩
  else
    match self.policyPluginState.preparedIamAuth with
    | some prepared => some prepared
    | none =>
      match self.isServiceAccount args.account with
      | none => some deniedAuth
      | some (true, parentUser) => self.prepareServiceAccountAuth clock fuel args parentUser groups
      | some (false, _) =>
        match self.isTempUser args.account with
        | none => some deniedAuth
        | some (true, parentUser) => self.prepareStsAuth clock fuel args parentUser groups
        | some (false, _) => self.prepareRegularAuth clock fuel args groups

/-- The modes of a request, with where their policies come from. -/
inductive Resolved (args : Args) (groups : Option (List Str)) : PreparedIamMode → Prop
  | opa : Resolved args groups .opa
  | owner : Resolved args groups .owner
  | deny : Resolved args groups .deny
  | regular {policies : List Str} (found : self.policyDbGet args.account groups = some policies) :
      Resolved args groups (.regular (self.mergePolicies (joinNames policies)).2)
  | sts {parentUser : Str} {policyNames : List Str} {combinedPolicy : Policy}
      (combined : self.stsCombinedPolicy args parentUser policyNames = some combinedPolicy) :
      Resolved args groups (.sts (self.isOwner args.claims parentUser) combinedPolicy
        (self.prepareSessionPolicy args.claims false))
  | serviceAccount {parentUser : Str} {federatedBoundary : Option Policy}
      {mode : PreparedServicePolicyMode} {combinedPolicy : Policy}
      (foreign : args.isOwner = false) (unplugged : self.policyPluginState = .disabled)
      (account : self.isServiceAccount args.account = some (true, parentUser))
      (declared : serviceMode args.claims parentUser = some mode)
      (bounded : self.serviceBoundary args.claims parentUser = some federatedBoundary)
      (combined : self.serviceCombinedPolicy args parentUser groups mode = some combinedPolicy) :
      Resolved args groups (.serviceAccount (self.isOwner args.claims parentUser)
        (self.bypassesParentPolicy args mode) parentUser combinedPolicy federatedBoundary mode
        (self.prepareSessionPolicy args.claims true))

variable {self} {clock} {fuel} {args : Args} {groups : Option (List Str)} {prepared : PreparedIamAuth}

/-- A mode of the request, with its own hint. -/
structure Prepares (self : IamSys) (clock : Clock) (fuel : Nat) (args : Args)
    (groups : Option (List Str)) (prepared : PreparedIamAuth) : Prop where
  resolved : self.Resolved args groups prepared.mode
  hinted : prepared.mode.needsExistingObjectTagForArgs clock fuel args =
    some prepared.needsExistingObjectTag

theorem prepares_denied (done : some deniedAuth = some prepared) :
    self.Prepares clock fuel args groups prepared := by
  cases done
  exact ⟨.deny, rfl⟩

theorem prepares_hint (resolved : self.Resolved args groups mode)
    (done : withHint clock fuel args mode = some prepared) :
    self.Prepares clock fuel args groups prepared := by
  obtain ⟨needs, hinted, rfl⟩ := map_eq_some_iff.1 done
  exact ⟨resolved, hinted⟩

theorem prepares_regular (done : self.prepareRegularAuth clock fuel args groups = some prepared) :
    self.Prepares clock fuel args groups prepared := by
  unfold prepareRegularAuth at done
  split at done
  · exact prepares_denied done
  · rename_i policies found
    split at done
    · exact prepares_denied done
    · dsimp only at done
      split at done
      · exact prepares_denied done
      · exact prepares_hint (.regular found) done

theorem prepares_sts
    (done : self.prepareStsAuth clock fuel args parentUser groups = some prepared) :
    self.Prepares clock fuel args groups prepared := by
  unfold prepareStsAuth at done
  split at done
  · exact prepares_denied done
  · dsimp only at done
    split at done
    · exact prepares_denied done
    · split at done
      · exact prepares_denied done
      · rename_i combined
        exact prepares_hint (.sts combined) done

theorem prepares_service_account (foreign : args.isOwner = false)
    (unplugged : self.policyPluginState = .disabled)
    (account : self.isServiceAccount args.account = some (true, parentUser))
    (done : self.prepareServiceAccountAuth clock fuel args parentUser groups = some prepared) :
    self.Prepares clock fuel args groups prepared := by
  unfold prepareServiceAccountAuth at done
  split at done
  · exact prepares_denied done
  · rename_i declared
    split at done
    · exact prepares_denied done
    · rename_i bounded
      split at done
      · exact prepares_denied done
      · rename_i combined
        exact prepares_hint (.serviceAccount foreign unplugged account declared bounded combined) done

theorem plugin_disabled {state : PolicyPluginState} (plugin : state.preparedIamAuth = none) :
    state = .disabled := by
  cases state with
  | disabled => rfl
  | initializing | ready | failed => cases plugin

theorem prepares_of_done (done : self.prepareAuth clock fuel args groups = some prepared) :
    self.Prepares clock fuel args groups prepared := by
  unfold prepareAuth at done
  split at done
  · cases done
    exact ⟨.owner, rfl⟩
  · rename_i foreign
    split at done
    · rename_i plugin
      cases done
      cases state : self.policyPluginState with
      | disabled =>
        rw [state] at plugin
        cases plugin
      | initializing =>
        rw [state] at plugin
        exact prepares_denied plugin
      | ready =>
        rw [state] at plugin
        cases plugin
        exact ⟨.opa, rfl⟩
      | failed =>
        rw [state] at plugin
        exact prepares_denied plugin
    · rename_i plugin
      split at done
      · exact prepares_denied done
      · rename_i account
        exact prepares_service_account (Bool.not_eq_true _ ▸ foreign) (plugin_disabled plugin) account done
      · split at done
        · exact prepares_denied done
        · exact prepares_sts done
        · exact prepares_regular done

theorem sts_owner_empty {policyNames : List Str}
    (combined : self.stsCombinedPolicy args parentUser policyNames = some combinedPolicy)
    (owner : self.isOwner args.claims parentUser = true) : combinedPolicy.statements = [] := by
  unfold stsCombinedPolicy at combined
  rw [if_pos owner] at combined
  cases combined
  rfl

theorem service_owner_empty {mode : PreparedServicePolicyMode}
    (combined : self.serviceCombinedPolicy args parentUser groups mode = some combinedPolicy)
    (bypassed : (self.isOwner args.claims parentUser || self.bypassesParentPolicy args mode) = true) :
    combinedPolicy.statements = [] := by
  unfold serviceCombinedPolicy at combined
  rw [if_pos bypassed] at combined
  cases combined
  rfl

end IamSys

/-- The part of a key before the first slash. -/
def keyNamespace (key : Str) : Str := key.takeWhile (· ≠ Path.slash)

def toAsciiLowercase (byte : UInt8) : UInt8 := if 0x41 ≤ byte && byte ≤ 0x5a then byte + 0x20 else byte

def eqIgnoreAsciiCase (left right : Str) : Bool :=
  left.map toAsciiLowercase = right.map toAsciiLowercase

def isBucketTag (key : Str) : Bool :=
  eqIgnoreAsciiCase (keyNamespace key) (str "ExistingBucketTag") ||
    eqIgnoreAsciiCase (keyNamespace key) (str "s3:ExistingBucketTag")

def opaBucketTagConditions (conditions : ConditionValues) (tags : List (Str × Str)) : ConditionValues :=
  if tags.isEmpty && !conditions.any (fun entry => isBucketTag entry.1) then conditions
  else conditions.filter (fun entry => !isBucketTag entry.1) ++
    tags.map fun tag => (str "ExistingBucketTag/" ++ tag.1, [tag.2])

section Modes

variable (parsers : Parsers) (clock : Clock) (fuel : Nat) (args : Args)

/-- `evaluate_prepared_session_policy`: the policy of a session knows no owner. -/
def PreparedSessionPolicy.evaluate : PreparedSessionPolicy → Option (Option Bool)
  | none => some Option.none
  | denyAll => some (some false)
  | policy subPolicy => (subPolicy.isAllowed parsers clock fuel { args with isOwner := false }).map some

def stsAllowed (isOwner : Bool) (combinedPolicy : Policy) (sessionPolicy : PreparedSessionPolicy) :
    Option Bool :=
  let allowed := if isOwner then some true else combinedPolicy.isAllowed parsers clock fuel args
  (sessionPolicy.evaluate parsers clock fuel args).bind fun sessionOk =>
    match sessionOk with
    | some ok => andAlso (some ok) allowed
    | none => allowed

def boundaryAllowed (federatedBoundary : Option Policy) : Option Bool :=
  match federatedBoundary with
  | some policy => policy.isAllowed parsers clock fuel { args with isOwner := false }
  | none => some true

def parentAllowed (isOwner bypassParentPolicy : Bool) (parentUser : Str) (combinedPolicy : Policy)
    (federatedBoundary : Option Policy) : Option Bool :=
  (boundaryAllowed parsers clock fuel args federatedBoundary).bind fun boundary =>
    (if bypassParentPolicy || isOwner then some true
    else combinedPolicy.isAllowed parsers clock fuel { args with account := parentUser }).map
      (· && boundary)

def serviceAllowed (isOwner bypassParentPolicy : Bool) (parentUser : Str) (combinedPolicy : Policy)
    (federatedBoundary : Option Policy) (mode : PreparedServicePolicyMode)
    (sessionPolicy : PreparedSessionPolicy) : Option Bool :=
  (parentAllowed parsers clock fuel args isOwner bypassParentPolicy parentUser combinedPolicy
    federatedBoundary).bind fun parent =>
      match mode with
      | .inherited => some parent
      | .sessionBound => (sessionPolicy.evaluate parsers clock fuel args).map fun sessionOk =>
        match sessionOk with
        | some ok => ok && parent
        | none => parent

def IamSys.tryEvalPrepared (self : IamSys) : PreparedIamMode → Option (Except IamError Bool)
  | .opa =>
    if self.policyPluginState = .ready then
      some ((if args.bucket.isEmpty then .ok [] else self.loadBucketTags args.bucket).map fun tags =>
        self.opaIsAllowed { args with conditions := opaBucketTagConditions args.conditions tags })
    else some (.ok false)
  | .owner => some (.ok true)
  | .deny => some (.ok false)
  | .regular combinedPolicy => (combinedPolicy.isAllowed parsers clock fuel args).map .ok
  | .sts isOwner combinedPolicy sessionPolicy =>
    (stsAllowed parsers clock fuel args isOwner combinedPolicy sessionPolicy).map .ok
  | .serviceAccount isOwner bypassParentPolicy parentUser combinedPolicy federatedBoundary mode
      sessionPolicy =>
      (serviceAllowed parsers clock fuel args isOwner bypassParentPolicy parentUser combinedPolicy
        federatedBoundary mode sessionPolicy).map .ok

def IamSys.evalPrepared (self : IamSys) (prepared : PreparedIamAuth) : Option Bool :=
  (self.tryEvalPrepared parsers clock fuel args prepared.mode).map fun answer => answer.toOption.getD false

end Modes

variable {fuel : Nat}

section Tags

variable {clock : Clock} {args : Args}

theorem unowned_with_tags {policy : Policy}
    (unneeded : policyNeedsExistingObjectTagForArgs clock fuel policy args = some false)
    (parsers : Parsers) (more : Nat) (tags : List (Str × Str)) :
    policy.isAllowed parsers clock more { args.withTags tags with isOwner := false } =
      policy.isAllowed parsers clock more { args with isOwner := false } := by
  have ignores : ∀ statement ∈ policy.statements,
      statement.IgnoresTags clock { args with isOwner := false } := by
    intro statement member
    exact ignores_of_unneeded unneeded statement member
  exact policy_with_tags ignores parsers more tags

theorem PreparedSessionPolicy.evaluate_with_tags {sessionPolicy : PreparedSessionPolicy}
    (unneeded : sessionPolicy.needsExistingObjectTagForArgs clock fuel args = some false)
    (parsers : Parsers) (more : Nat) (tags : List (Str × Str)) :
    sessionPolicy.evaluate parsers clock more (args.withTags tags) =
      sessionPolicy.evaluate parsers clock more args := by
  cases sessionPolicy with
  | none => rfl
  | denyAll => rfl
  | policy subPolicy =>
    exact congrArg (Option.map some) (unowned_with_tags unneeded parsers more tags)

theorem boundary_with_tags {federatedBoundary : Option Policy}
    (unneeded : ∀ policy, federatedBoundary = some policy →
      policyNeedsExistingObjectTagForArgs clock fuel policy args = some false)
    (parsers : Parsers) (more : Nat) (tags : List (Str × Str)) :
    boundaryAllowed parsers clock more (args.withTags tags) federatedBoundary =
      boundaryAllowed parsers clock more args federatedBoundary := by
  cases federatedBoundary with
  | none => rfl
  | some policy => exact unowned_with_tags (unneeded policy rfl) parsers more tags

/-- A service account is answered alike where its three policies are: the one of its parent, which
is evaluated for the parent, its boundary and its session policy. -/
theorem service_with_tags {parsers : Parsers} {more : Nat} {tags : List (Str × Str)}
    {parentUser : Str} {combinedPolicy : Policy} {federatedBoundary : Option Policy}
    {mode : PreparedServicePolicyMode} {sessionPolicy : PreparedSessionPolicy}
    (parent : combinedPolicy.isAllowed parsers clock more
        (({ args with account := parentUser } : Args).withTags tags) =
      combinedPolicy.isAllowed parsers clock more { args with account := parentUser })
    (boundary : boundaryAllowed parsers clock more (args.withTags tags) federatedBoundary =
      boundaryAllowed parsers clock more args federatedBoundary)
    (session : mode = .sessionBound →
      sessionPolicy.evaluate parsers clock more (args.withTags tags) =
        sessionPolicy.evaluate parsers clock more args) (isOwner bypassParentPolicy : Bool) :
    serviceAllowed parsers clock more (args.withTags tags) isOwner bypassParentPolicy parentUser
        combinedPolicy federatedBoundary mode sessionPolicy =
      serviceAllowed parsers clock more args isOwner bypassParentPolicy parentUser combinedPolicy
        federatedBoundary mode sessionPolicy := by
  have allowed : parentAllowed parsers clock more (args.withTags tags) isOwner bypassParentPolicy
      parentUser combinedPolicy federatedBoundary =
        parentAllowed parsers clock more args isOwner bypassParentPolicy parentUser combinedPolicy
          federatedBoundary := by
    unfold parentAllowed
    rw [boundary, ← parent]
    rfl
  unfold serviceAllowed
  rw [allowed]
  cases mode with
  | inherited => rfl
  | sessionBound => rw [session rfl]

end Tags

/-- The evaluation comes to no statement about tags that the hint of the preparation is not
about. The policies that a service account has from its parent are the only ones that are
evaluated for another account than the hint is made for, and they are reached behind the owner,
the policy plugin, the claims of the account and its federated boundary. -/
def IamSys.ReadsHintedTags (self : IamSys) (parsers : Parsers) (clock : Clock) (args : Args)
    (groups : Option (List Str)) : Prop :=
  args.isOwner = true ∨ self.policyPluginState ≠ .disabled ∨
    ∀ parentUser mode federatedBoundary combinedPolicy,
      self.isServiceAccount args.account = some (true, parentUser) →
        IamSys.serviceMode args.claims parentUser = some mode →
          self.serviceBoundary args.claims parentUser = some federatedBoundary →
            self.serviceCombinedPolicy args parentUser groups mode = some combinedPolicy →
              ∀ fuel statement,
                Evaluates parsers clock fuel { args with account := parentUser } combinedPolicy
                  statement → statement.IgnoresTags clock { args with account := parentUser }

/-- Tags that the preparation does not ask for change no answer, where no statement of the
policies that a service account has from its parent asks for them once it is evaluated for the
parent. For every other caller the hint and the evaluation look at one request. -/
theorem skipped_lookup_is_harmless (self : IamSys) (parsers : Parsers) (clock : Clock) (args : Args)
    (groups : Option (List Str)) (tags : List (Str × Str)) (fuel : Nat) (prepared : PreparedIamAuth)
    (done : self.prepareAuth clock fuel args groups = some prepared)
    (skipped : prepared.needsExistingObjectTag = false)
    (hinted : self.ReadsHintedTags parsers clock args groups) (more : Nat) :
    self.evalPrepared parsers clock more (args.withTags tags) prepared =
      self.evalPrepared parsers clock more args prepared := by
  obtain ⟨resolved, unneeded⟩ := IamSys.prepares_of_done done
  rw [skipped] at unneeded
  have same : self.tryEvalPrepared parsers clock more (args.withTags tags) prepared.mode =
      self.tryEvalPrepared parsers clock more args prepared.mode := by
    cases modeOf : prepared.mode with
    | opa =>
      rw [modeOf] at unneeded
      cases unneeded
    | owner => rfl
    | deny => rfl
    | regular combinedPolicy =>
      rw [modeOf] at unneeded
      exact congrArg (Option.map Except.ok)
        (policy_with_tags (ignores_of_unneeded unneeded) parsers more tags)
    | sts isOwner combinedPolicy sessionPolicy =>
      rw [modeOf] at unneeded
      obtain ⟨combined, session⟩ := or_also_false.1 unneeded
      apply congrArg (Option.map Except.ok)
      unfold stsAllowed
      rw [policy_with_tags (ignores_of_unneeded combined),
        PreparedSessionPolicy.evaluate_with_tags session]
    | serviceAccount isOwner bypassParentPolicy parentUser combinedPolicy federatedBoundary mode
        sessionPolicy =>
      rw [modeOf] at unneeded resolved
      obtain ⟨_, rest⟩ := or_also_false.1 unneeded
      obtain ⟨boundary, session⟩ := or_also_false.1 rest
      -- the hint is about the account, the evaluation about its parent
      have parent : combinedPolicy.isAllowed parsers clock more
          (({ args with account := parentUser } : Args).withTags tags) =
            combinedPolicy.isAllowed parsers clock more { args with account := parentUser } := by
        cases resolved with
        | serviceAccount foreign unplugged account declared within combined =>
          rcases hinted with owner | plugged | ignores
          · rw [foreign] at owner
            cases owner
          · exact absurd unplugged plugged
          · exact evaluated_with_tags (ignores _ _ _ _ account declared within combined more) tags
      have bounded : boundaryAllowed parsers clock more (args.withTags tags) federatedBoundary =
          boundaryAllowed parsers clock more args federatedBoundary := by
        apply boundary_with_tags
        rintro policy rfl
        exact boundary
      apply congrArg (Option.map Except.ok)
      apply service_with_tags parent bounded
      rintro rfl
      exact PreparedSessionPolicy.evaluate_with_tags session parsers more tags
  unfold IamSys.evalPrepared
  rw [same]

/-- A user may read what is in the bucket, unless the object is below the name of the account and
has a tag. -/
def taggedPolicy : Policy :=
  ⟨str "2012-10-17",
    [⟨.allow, [.s3Action .getObjectAction], [], [.s3 (str "b/*")], [], ⟨[], [], []⟩⟩,
      ⟨.deny, [.s3Action .getObjectAction], [], [.s3 (str "b/$\x7baws:AccountId\x7d/*")], [],
        ⟨[], [], [.string .stringEquals
          [⟨⟨.s3 .s3ExistingObjectTag, some (str "security")⟩, [str "restricted"]⟩]]⟩⟩]⟩

/-- A store with the user `alice` and her service account `svc`. -/
def aliceSys : IamSys :=
  { policyPluginState := .disabled
    isServiceAccount := fun account =>
      if account = str "svc" then some (true, str "alice") else some (false, [])
    isTempUser := fun _ => some (false, [])
    policyDbGet := fun user _ => if user = str "alice" then some [str "reader"] else some []
    mergePolicies := fun names => if names = str "reader" then (names, taggedPolicy) else ([], ⟨[], []⟩)
    rolePolicies := fun _ => none
    userGroups := fun _ => none
    isRootAccessKey := fun _ => false
    base64 := fun _ => none
    isUtf8 := fun _ => true
    parseConfig := fun _ => none
    loadBucketTags := fun _ => .ok []
    opaIsAllowed := fun _ => false }

def serviceRead (object : Str) : Args :=
  ⟨str "svc", .s3Action .getObjectAction, str "b", [], false, object,
    [(str "parent", .string (str "alice")), (str "sa-policy", .string (str "inherited-policy"))], false⟩

def restrictedTag : List (Str × Str) := [(str "security", str "restricted")]

theorem other_object_ignores_tags :
    ∃ prepared, aliceSys.prepareAuth ⟨[], []⟩ 9 (serviceRead (str "x")) none = some prepared ∧
      ∀ more, aliceSys.evalPrepared Condition.stringParsers ⟨[], []⟩ more
          ((serviceRead (str "x")).withTags restrictedTag) prepared =
        aliceSys.evalPrepared Condition.stringParsers ⟨[], []⟩ more (serviceRead (str "x")) prepared := by
  refine ⟨⟨false, .serviceAccount false false (str "alice") taggedPolicy none .inherited .none⟩, by rfl, ?_⟩
  apply skipped_lookup_is_harmless aliceSys Condition.stringParsers ⟨[], []⟩ (serviceRead (str "x"))
    none restrictedTag 9 _ (by rfl) rfl
  refine .inr (.inr ?_)
  intro parentUser mode federatedBoundary combinedPolicy account declared within combined fuel statement
    evaluated
  cases account
  cases combined
  have unneeded : policyNeedsExistingObjectTagForArgs ⟨[], []⟩ 9 taggedPolicy
      { serviceRead (str "x") with account := str "alice" } = some false := by decide
  exact ignores_of_unneeded unneeded statement evaluated.mem

/-- The hint is about `b/svc`, the denial about `b/alice`. -/
theorem service_account_skips_a_deciding_tag :
    (aliceSys.prepareAuth ⟨[], []⟩ 9 (serviceRead (str "alice/x")) none).map
        PreparedIamAuth.needsExistingObjectTag = some false ∧
      (aliceSys.prepareAuth ⟨[], []⟩ 9 (serviceRead (str "alice/x")) none).bind
        (aliceSys.evalPrepared Condition.stringParsers ⟨[], []⟩ 9 (serviceRead (str "alice/x"))) =
          some true ∧
      (aliceSys.prepareAuth ⟨[], []⟩ 9 (serviceRead (str "alice/x")) none).bind
        (aliceSys.evalPrepared Condition.stringParsers ⟨[], []⟩ 9
          ((serviceRead (str "alice/x")).withTags restrictedTag)) = some false := by
  decide

section Fuel

variable {clock : Clock} {fuel more : Nat} {args : Args} {answer : Bool}
  {sessionPolicy : PreparedSessionPolicy} {parentUser : Str} {parsers : Parsers}

theorem policy_needs_mono (enough : fuel ≤ more) {policy : Policy}
    (done : policyNeedsExistingObjectTagForArgs clock fuel policy args = some answer) :
    policyNeedsExistingObjectTagForArgs clock more policy args = some answer := by
  apply ite_mono id _ done
  apply any_m_mono
  intro statement answer
  exact ite_mono id (Statement.reaches_mono enough)

theorem session_needs_mono (enough : fuel ≤ more)
    (done : sessionPolicy.needsExistingObjectTagForArgs clock fuel args = some answer) :
    sessionPolicy.needsExistingObjectTagForArgs clock more args = some answer := by
  cases sessionPolicy with
  | none => exact done
  | denyAll => exact done
  | policy subPolicy => exact policy_needs_mono enough done

theorem mode_needs_mono (enough : fuel ≤ more)
    (done : mode.needsExistingObjectTagForArgs clock fuel args = some answer) :
    mode.needsExistingObjectTagForArgs clock more args = some answer := by
  cases mode with
  | opa => exact done
  | owner => exact done
  | deny => exact done
  | regular combinedPolicy => exact policy_needs_mono enough done
  | sts isOwner combinedPolicy sessionPolicy =>
    exact or_also_mono (fun _ => policy_needs_mono enough) (session_needs_mono enough) done
  | serviceAccount isOwner bypassParentPolicy parentUser combinedPolicy federatedBoundary mode
      sessionPolicy =>
      apply or_also_mono (fun _ => policy_needs_mono enough) _ done
      apply or_also_mono
      · intro answer
        cases federatedBoundary with
        | none => exact id
        | some policy => exact policy_needs_mono enough
      · exact ite_mono (session_needs_mono enough) id

namespace IamSys

variable {self : IamSys} {groups : Option (List Str)} {prepared : PreparedIamAuth}

theorem with_hint_mono (enough : fuel ≤ more)
    (done : withHint clock fuel args mode = some prepared) :
    withHint clock more args mode = some prepared :=
  map_mono (fun _ => mode_needs_mono enough) done

theorem prepare_regular_mono (enough : fuel ≤ more) :
    self.prepareRegularAuth clock fuel args groups = some prepared →
      self.prepareRegularAuth clock more args groups = some prepared := by
  unfold prepareRegularAuth
  split
  · exact id
  · apply ite_mono id
    apply ite_mono id
    exact with_hint_mono enough

theorem prepare_sts_mono (enough : fuel ≤ more) :
    self.prepareStsAuth clock fuel args parentUser groups = some prepared →
      self.prepareStsAuth clock more args parentUser groups = some prepared := by
  unfold prepareStsAuth
  split
  · exact id
  · dsimp only
    split
    · exact id
    · split
      · exact id
      · exact with_hint_mono enough

theorem prepare_service_account_mono (enough : fuel ≤ more) :
    self.prepareServiceAccountAuth clock fuel args parentUser groups = some prepared →
      self.prepareServiceAccountAuth clock more args parentUser groups = some prepared := by
  unfold prepareServiceAccountAuth
  split
  · exact id
  · split
    · exact id
    · split
      · exact id
      · exact with_hint_mono enough

theorem prepare_auth_mono (enough : fuel ≤ more) :
    self.prepareAuth clock fuel args groups = some prepared →
      self.prepareAuth clock more args groups = some prepared := by
  apply ite_mono id
  split
  · exact id
  · split
    · exact id
    · exact prepare_service_account_mono enough
    · split
      · exact id
      · exact prepare_sts_mono enough
      · exact prepare_regular_mono enough

end IamSys

theorem session_evaluate_mono (enough : fuel ≤ more)
    {answer : Option Bool} (done : sessionPolicy.evaluate parsers clock fuel args = some answer) :
    sessionPolicy.evaluate parsers clock more args = some answer := by
  cases sessionPolicy with
  | none => exact done
  | denyAll => exact done
  | policy subPolicy => exact map_mono (fun _ => policy_mono enough) done

theorem sts_allowed_mono (enough : fuel ≤ more) {isOwner : Bool}
    (done : stsAllowed parsers clock fuel args isOwner combinedPolicy sessionPolicy = some answer) :
    stsAllowed parsers clock more args isOwner combinedPolicy sessionPolicy = some answer := by
  have allowed : ∀ answer,
      (if isOwner then some true else combinedPolicy.isAllowed parsers clock fuel args) = some answer →
        (if isOwner then some true else combinedPolicy.isAllowed parsers clock more args) = some answer :=
    fun answer => ite_mono id (policy_mono enough)
  apply bind_mono (fun _ => session_evaluate_mono enough) _ done
  intro sessionOk
  cases sessionOk with
  | none => exact allowed answer
  | some ok => exact and_also_mono (fun _ => id) allowed

theorem service_allowed_mono (enough : fuel ≤ more) {isOwner bypassParentPolicy : Bool}
    {federatedBoundary : Option Policy} {mode : PreparedServicePolicyMode}
    (done : serviceAllowed parsers clock fuel args isOwner bypassParentPolicy parentUser combinedPolicy
      federatedBoundary mode sessionPolicy = some answer) :
    serviceAllowed parsers clock more args isOwner bypassParentPolicy parentUser combinedPolicy
      federatedBoundary mode sessionPolicy = some answer := by
  apply bind_mono _ _ done
  · intro parent
    apply bind_mono
    · intro boundary
      cases federatedBoundary with
      | none => exact id
      | some policy => exact policy_mono enough
    · intro boundary
      exact map_mono fun answer => ite_mono id (policy_mono enough)
  · intro parent
    cases mode with
    | inherited => exact id
    | sessionBound => exact map_mono fun _ => session_evaluate_mono enough

theorem try_eval_mono (enough : fuel ≤ more) {self : IamSys} {answer : Except IamError Bool}
    (done : self.tryEvalPrepared parsers clock fuel args mode = some answer) :
    self.tryEvalPrepared parsers clock more args mode = some answer := by
  cases mode with
  | opa => exact done
  | owner => exact done
  | deny => exact done
  | regular combinedPolicy => exact map_mono (fun _ => policy_mono enough) done
  | sts isOwner combinedPolicy sessionPolicy => exact map_mono (fun _ => sts_allowed_mono enough) done
  | serviceAccount isOwner bypassParentPolicy parentUser combinedPolicy federatedBoundary mode
      sessionPolicy => exact map_mono (fun _ => service_allowed_mono enough) done

end Fuel

/-- The request as the mode evaluates its combined policy: that of a service account is the one
of its parent. -/
def PreparedIamMode.policyArgs (args : Args) : PreparedIamMode → Args
  | .serviceAccount _ _ parentUser _ _ _ _ => { args with account := parentUser }
  | _ => args

/-- A Deny statement of the combined policy applies to the request. -/
def PreparedIamMode.Denies (parsers : Parsers) (clock : Clock) (mode : PreparedIamMode) (args : Args) :
    Prop :=
  ∃ policy, mode.combinedPolicyForView = some policy ∧
    ∃ statement ∈ policy.statements, statement.effect = .deny ∧
      Returns (fun fuel => statement.check parsers clock fuel (mode.policyArgs args)) true

section Denials

variable {parsers : Parsers} {clock : Clock} {args : Args} {policy : Policy} {statement : Statement}

theorem applied_deny_is_false (member : statement ∈ policy.statements) (denies : statement.effect = .deny)
    (applies : Returns (fun fuel => statement.check parsers clock fuel args) true)
    {result : Bool} (done : policy.isAllowed parsers clock fuel args = some result) : result = false := by
  obtain ⟨enough, checked⟩ := applies
  have applied : statement.check parsers clock (max fuel enough) args = some true :=
    checked _ (Nat.le_max_right fuel enough)
  apply policy_denied member denies _ (policy_mono (Nat.le_max_left fuel enough) done)
  unfold Statement.isAllowed
  rw [applied, map_some, denies]
  rfl

theorem denied_mode_is_false {self : IamSys} {groups : Option (List Str)}
    {initial : Args} (resolved : self.Resolved initial groups mode)
    (denied : mode.Denies parsers clock args) {answer : Except IamError Bool}
    (done : self.tryEvalPrepared parsers clock fuel args mode = some answer) :
    answer = .ok false := by
  obtain ⟨policy, combined, statement, member, denies, applies⟩ := denied
  cases resolved with
  | opa => cases combined
  | owner => cases combined
  | deny => cases combined
  | regular found =>
    cases combined
    obtain ⟨allowed, evaluated, rfl⟩ := map_eq_some_iff.1 done
    rw [applied_deny_is_false member denies applies evaluated]
  | @sts parentUser policyNames combinedPolicy isCombined =>
    cases combined
    obtain ⟨allowed, evaluated, rfl⟩ := map_eq_some_iff.1 done
    have notOwner : self.isOwner initial.claims parentUser = false := by
      rw [← Bool.not_eq_true]
      intro owner
      rw [IamSys.sts_owner_empty isCombined owner] at member
      cases member
    rw [notOwner] at evaluated
    obtain ⟨sessionOk, _, continued⟩ := bind_eq_some_iff.1 evaluated
    cases sessionOk with
    | none => rw [applied_deny_is_false member denies applies continued]
    | some ok =>
      rcases and_also_some.1 continued with ⟨_, isFalse⟩ | ⟨_, combinedAnswer⟩
      · rw [isFalse]
      · rw [applied_deny_is_false member denies applies combinedAnswer]
  | @serviceAccount parentUser federatedBoundary mode combinedPolicy foreign unplugged account declared
      within isCombined =>
    cases combined
    obtain ⟨allowed, evaluated, rfl⟩ := map_eq_some_iff.1 done
    have notBypassed :
        (self.bypassesParentPolicy initial mode || self.isOwner initial.claims parentUser) = false := by
      rw [← Bool.not_eq_true, Bool.or_comm]
      intro bypassed
      rw [IamSys.service_owner_empty isCombined bypassed] at member
      cases member
    obtain ⟨parent, parentDone, continued⟩ := bind_eq_some_iff.1 evaluated
    have parentDenied : parent = false := by
      obtain ⟨boundary, _, inherited⟩ := bind_eq_some_iff.1 parentDone
      rw [notBypassed] at inherited
      obtain ⟨combinedAnswer, combinedDone, rfl⟩ := map_eq_some_iff.1 inherited
      rw [applied_deny_is_false member denies applies combinedDone]
      rfl
    subst parentDenied
    cases mode with
    | inherited =>
      cases continued
      rfl
    | sessionBound =>
      obtain ⟨sessionOk, _, rfl⟩ := map_eq_some_iff.1 continued
      cases sessionOk with
      | none => rfl
      | some ok => exact congrArg Except.ok (Bool.and_false ok)

end Denials

end Rustfs.Iam
