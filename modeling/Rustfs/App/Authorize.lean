import Rustfs.Iam.Prepare
import Rustfs.Library.Outcome

/-!
# Authorization of a request

`authorize_request` of `storage/access.rs`: a denial of the bucket policy, the identity policies,
for some actions a second look for a denial among them, and last what the bucket policy allows. The
lookups of the request extensions and of the store, which fail before anything is decided, are left
out, as are log events and metrics.
-/

namespace Rustfs.App

open Option Policy Iam Library Library.ShortCircuit

inductive AuthorizeError
  /-- Access denied, with the reason that is logged. -/
  | denied (reason : String)
  | api (error : StorageError)
  | iam (error : IamError)
  | other (message : String)
  deriving DecidableEq

structure Credential where
  accessKey : Str
  groups : Option (List Str)
  claims : Claims

structure S3Request where
  credential : Option Credential
  isOwner : Bool
  bucket : Str
  object : Str
  action : Action
  /-- `authorization_conditions` of the request. -/
  conditions : Except AuthorizeError ConditionValues
  internalObjectAuthorization : Bool

structure Stores where
  iam : Except AuthorizeError IamSys
  /-- The text of the bucket policy, parsed; `none` where it is malformed. -/
  bucketPolicyRaw : Except StorageError (Option BucketPolicy)
  bucketPolicy : Except StorageError BucketPolicy
  objectTags : Except AuthorizeError ConditionValues
  tableDataPlane : ConditionValues → Except AuthorizeError Unit
  anonymousTableDataPlane : Except AuthorizeError Unit
  restrictsPublicBucketAccess : Except StorageError Bool

def Credential.args (credential : Credential) (request : S3Request) (conditions : ConditionValues) : Args :=
  ⟨credential.accessKey, request.action, request.bucket, conditions, request.isOwner, request.object,
    credential.claims, false⟩

def S3Request.bucketArgs (request : S3Request) (account : Str) (isOwner : Bool)
    (conditions : ConditionValues) : BucketPolicyArgs :=
  ⟨account, request.action, request.bucket, conditions, isOwner, request.object⟩

inductive BucketPolicyExistingObjectTagHint
  | noTagRequirement
  | conservativeTagRequired
  | parsed (policy : BucketPolicy)

def loadBucketPolicyExistingObjectTagHint (stores : Stores) : BucketPolicyExistingObjectTagHint :=
  match stores.bucketPolicyRaw with
  | .error .configNotFound => .noTagRequirement
  | .error .bucketNotFound => .noTagRequirement
  | .error (.other _) => .conservativeTagRequired
  | .ok none => .conservativeTagRequired
  | .ok (some policy) =>
    if policy.usesExistingObjectTagConditions then .parsed policy else .noTagRequirement

def BucketPolicyExistingObjectTagHint.needsExistingObjectTag (args : BucketPolicyArgs) :
    BucketPolicyExistingObjectTagHint → Bool
  | noTagRequirement => false
  | conservativeTagRequired => true
  | parsed policy => policy.needsExistingObjectTagForArgs args

def needsTagFromBucket (stores : Stores) (request : S3Request) (args : BucketPolicyArgs) : Bool :=
  !request.bucket.isEmpty && !request.object.isEmpty &&
    (loadBucketPolicyExistingObjectTagHint stores).needsExistingObjectTag args

def maybeMergeObjectTagConditions (stores : Stores) (request : S3Request) (conditions : ConditionValues)
    (needsTag : Bool) : Except AuthorizeError ConditionValues :=
  if !needsTag || request.bucket.isEmpty || request.object.isEmpty then .ok conditions
  else stores.objectTags.map (mergeObjectTagConditions conditions)

def andThen {α β : Type} (step : Except AuthorizeError α)
    (next : α → Option (Except AuthorizeError β)) : Option (Except AuthorizeError β) :=
  match step with
  | .ok value => next value
  | .error error => some (.error error)

def ownerCanBypassPolicyDeny (isOwner : Bool) (action : Action) : Bool :=
  isOwner && (action = .s3Action .getBucketPolicyAction || action = .s3Action .putBucketPolicyAction ||
    action = .s3Action .deleteBucketPolicyAction)

/-- The actions that an explicit denial is looked for once more. -/
def deniesFinally (action : Action) : Bool :=
  action = .s3Action .deleteObjectAction || action = .s3Action .deleteObjectVersionAction ||
    action = .s3Action .forceDeleteBucketAction || action = .s3Action .forceDeleteObjectAction ||
    action = .s3Action .listBucketVersionsAction ||
    action = .s3Action .bypassGovernanceRetentionAction || action = .s3Action .replicateDeleteAction

section Authorize

variable (parsers : Parsers) (clock : Clock) (fuel : Nat) (stores : Stores) (request : S3Request)

/-- `PolicySys::try_is_allowed_for_store`. -/
def bucketAllows (args : BucketPolicyArgs) : Except AuthorizeError Bool :=
  (isAllowedWithPolicy parsers args stores.bucketPolicy).mapError .api

/-- The gate asks for the owner, so that only a denial of the bucket policy closes it. -/
def bucketGate (account : Str) (bypass : Bool) (conditions : ConditionValues) :
    Except AuthorizeError Unit :=
  if request.bucket.isEmpty || bypass then .ok ()
  else do
    let allowed ← bucketAllows parsers stores (request.bucketArgs account true conditions)
    if allowed then .ok () else .error (.denied "bucket_policy_explicit_deny")

def identityAllowed (iam : IamSys) (mode : PreparedIamMode) (args : Args) :
    Option (Except AuthorizeError Bool) :=
  (iam.tryEvalPrepared parsers clock fuel args mode).bind fun answer =>
    andThen (answer.mapError .iam) fun allowed =>
      if !allowed && deniesFinally args.action && mode.combinedPolicyForView.isSome then
        (iam.tryEvalPrepared parsers clock fuel { args with denyOnly := true } mode).bind fun answer =>
          andThen (answer.mapError .iam) fun undenied =>
            if undenied then some (.ok allowed) else some (.error (.denied "iam_explicit_deny"))
      else some (.ok allowed)

def tableDataPlane (conditions : ConditionValues) : Except AuthorizeError Unit :=
  if request.internalObjectAuthorization then .ok () else stores.tableDataPlane conditions

/-- What follows the identity policies: the bucket policy may still allow the request. -/
def credentialDecision (account : Str) (conditions : ConditionValues) (iamAllowed : Bool) :
    Except AuthorizeError Unit :=
  if iamAllowed then tableDataPlane stores request conditions
  else if request.action = .s3Action .listAllMyBucketsAction then .error (.denied "iam_implicit_deny")
  else do
    let allowed ← bucketAllows parsers stores (request.bucketArgs account request.isOwner conditions)
    if allowed then tableDataPlane stores request conditions
    else .error (.denied "no_policy_allows_action")

def authorizeCredential (credential : Credential) : Option (Except AuthorizeError Unit) :=
  andThen stores.iam fun iam =>
    andThen request.conditions fun conditions =>
      (iam.prepareAuth clock fuel (credential.args request conditions) credential.groups).bind
        fun prepared =>
          let needsTag := prepared.needsExistingObjectTag || needsTagFromBucket stores request
            (request.bucketArgs credential.accessKey request.isOwner conditions)
          andThen (maybeMergeObjectTagConditions stores request conditions needsTag) fun conditions =>
            andThen (bucketGate parsers stores request credential.accessKey
                (ownerCanBypassPolicyDeny request.isOwner request.action) conditions) fun _ =>
              (identityAllowed parsers clock fuel iam prepared.mode
                (credential.args request conditions)).bind fun allowed =>
                  andThen allowed fun iamAllowed =>
                    some (credentialDecision parsers stores request credential.accessKey conditions
                      iamAllowed)

def publicAccess : Except AuthorizeError Unit :=
  match stores.restrictsPublicBucketAccess with
  | .ok true => .error (.denied "restrict_public_buckets")
  | .ok false => .ok ()
  | .error .configNotFound => .ok ()
  | .error _ => .error (.denied "public_access_block_unavailable")

/-- A policy that lets everyone list the bucket covers its versions. -/
def anonymousAllowed (conditions : ConditionValues) : Except AuthorizeError Bool := do
  let allowed ← bucketAllows parsers stores (request.bucketArgs [] false conditions)
  if !allowed && request.action = .s3Action .listBucketVersionsAction then
    bucketAllows parsers stores
      ⟨[], .s3Action .listBucketAction, request.bucket, conditions, false, []⟩
  else .ok allowed

def authorizeAnonymous : Except AuthorizeError Unit := do
  let conditions ← request.conditions
  let needsTag := needsTagFromBucket stores request (request.bucketArgs [] false conditions)
  let conditions ← maybeMergeObjectTagConditions stores request conditions needsTag
  bucketGate parsers stores request [] false conditions
  if request.action = .s3Action .listAllMyBucketsAction then .error (.denied "no_policy_allows_action")
  else
    let allowed ← anonymousAllowed parsers stores request conditions
    if allowed then do
      stores.anonymousTableDataPlane
      publicAccess stores
    else .error (.denied "no_policy_allows_action")

def authorizeRequest : Option (Except AuthorizeError Unit) :=
  match request.credential with
  | some credential => authorizeCredential parsers clock fuel stores request credential
  | none => some (authorizeAnonymous parsers stores request)

end Authorize

section Steps

variable {α β : Type} {next : α → Option (Except AuthorizeError β)} {step : Except AuthorizeError α}

theorem and_then_ok {result : β} : andThen step next = some (.ok result) ↔
      ∃ value, step = .ok value ∧ next value = some (.ok result) := by
  cases step with
  | error error | ok value => simp [andThen]

theorem bind_and_then_ok {step : Option (Except AuthorizeError α)} {result : β} :
    (step.bind fun answer => andThen answer next) = some (.ok result) ↔
      ∃ value, step = some (.ok value) ∧ next value = some (.ok result) := by
  cases step with
  | none => simp
  | some answer =>
    rw [bind_some, and_then_ok]
    simp

theorem and_then_mono
    {next next' : α → Option (Except AuthorizeError β)} {outcome : Except AuthorizeError β}
    (grows : ∀ value, next value = some outcome → next' value = some outcome)
    (done : andThen step next = some outcome) : andThen step next' = some outcome := by
  cases step with
  | error error => exact done
  | ok value => exact grows value done

theorem and_then_ends (ends : ∀ value, step = .ok value → ∃ outcome, next value = some outcome) :
    ∃ outcome, andThen step next = some outcome := by
  cases step with
  | error error => exact ⟨_, rfl⟩
  | ok value => exact ends value rfl

end Steps

section Denied

variable {parsers : Parsers} {clock : Clock} {stores : Stores} {request : S3Request}
  {credential : Credential} {iam : IamSys} {mode : PreparedIamMode} {args : Args} {fuel : Nat}

theorem authorized_steps
    (done : authorizeCredential parsers clock fuel stores request credential = some (.ok ())) :
    ∃ iam conditions prepared final iamAllowed,
      stores.iam = .ok iam ∧ request.conditions = .ok conditions ∧
      iam.prepareAuth clock fuel (credential.args request conditions) credential.groups = some prepared ∧
      maybeMergeObjectTagConditions stores request conditions
        (prepared.needsExistingObjectTag || needsTagFromBucket stores request
          (request.bucketArgs credential.accessKey request.isOwner conditions)) = .ok final ∧
      identityAllowed parsers clock fuel iam prepared.mode (credential.args request final) =
        some (.ok iamAllowed) ∧
      credentialDecision parsers stores request credential.accessKey final iamAllowed = .ok () := by
  obtain ⟨iam, isIam, done⟩ := and_then_ok.1 done
  obtain ⟨conditions, isConditions, done⟩ := and_then_ok.1 done
  obtain ⟨prepared, isPrepared, done⟩ := bind_eq_some_iff.1 done
  obtain ⟨final, isFinal, done⟩ := and_then_ok.1 done
  obtain ⟨_, _, done⟩ := and_then_ok.1 done
  obtain ⟨iamAllowed, isAllowed, done⟩ := bind_and_then_ok.1 done
  exact ⟨iam, conditions, prepared, final, iamAllowed, isIam, isConditions, isPrepared, isFinal, isAllowed,
    Option.some.inj done⟩

/-- A denial in the combined policy leaves the request to the bucket policy, unless it is looked
for once more. -/
theorem denied_identity {groups : Option (List Str)} {initial : Args}
    (resolved : iam.Resolved initial groups mode) (denied : mode.Denies parsers clock args)
    {allowed : Bool}
    (done : identityAllowed parsers clock fuel iam mode args = some (.ok allowed)) :
    allowed = false ∧ deniesFinally args.action = false := by
  obtain ⟨answer, evaluated, done⟩ := bind_eq_some_iff.1 done
  have isFalse := denied_mode_is_false resolved denied evaluated
  subst isFalse
  obtain ⟨policy, combined, _⟩ := id denied
  cases guarded : deniesFinally args.action with
  | false =>
    rw [guarded] at done
    cases done
    exact ⟨rfl, rfl⟩
  | true =>
    rw [guarded, combined] at done
    obtain ⟨again, evaluatedAgain, done⟩ := bind_eq_some_iff.1 done
    have deniedAgain : mode.Denies parsers clock { args with denyOnly := true } := by
      cases mode with
      | opa => exact denied
      | owner => exact denied
      | deny | regular combinedPolicy | sts isOwner combinedPolicy sessionPolicy => exact denied
      | serviceAccount isOwner bypassParentPolicy parentUser combinedPolicy federatedBoundary mode
          sessionPolicy => exact denied
    have isFalse := denied_mode_is_false resolved deniedAgain evaluatedAgain
    subst isFalse
    cases done

theorem identity_allowed_mono {fuel more : Nat} (enough : fuel ≤ more)
    {outcome : Except AuthorizeError Bool}
    (done : identityAllowed parsers clock fuel iam mode args = some outcome) :
    identityAllowed parsers clock more iam mode args = some outcome := by
  apply bind_mono (fun _ => try_eval_mono enough) _ done
  intro answer
  apply and_then_mono
  intro allowed
  apply ite_mono _ id
  exact bind_mono (fun _ => try_eval_mono enough) fun _ => id

theorem authorize_credential_mono {fuel more : Nat} (enough : fuel ≤ more)
    {outcome : Except AuthorizeError Unit}
    (done : authorizeCredential parsers clock fuel stores request credential = some outcome) :
    authorizeCredential parsers clock more stores request credential = some outcome := by
  apply and_then_mono _ done
  intro iam
  apply and_then_mono
  intro conditions
  apply bind_mono fun _ => IamSys.prepare_auth_mono enough
  intro prepared
  apply and_then_mono
  intro final
  apply and_then_mono
  intro passed
  exact bind_mono (fun _ => identity_allowed_mono enough) fun _ => id

theorem identity_allowed_ends {first second : Except IamError Bool}
    (evaluated : iam.tryEvalPrepared parsers clock fuel args mode = some first)
    (evaluatedAgain : iam.tryEvalPrepared parsers clock fuel { args with denyOnly := true } mode =
      some second) :
    ∃ outcome, identityAllowed parsers clock fuel iam mode args = some outcome := by
  unfold identityAllowed
  rw [evaluated, evaluatedAgain, bind_some]
  apply and_then_ends
  intro allowed _
  split
  · rw [bind_some]
    apply and_then_ends
    intro undenied _
    split
    all_goals exact ⟨_, rfl⟩
  · exact ⟨_, rfl⟩

end Denied

/-- An identity denial is final for the actions it is looked for once more, and for listing the
buckets; for every other action it is final unless the bucket policy allows the request. -/
theorem explicit_deny_is_final (parsers : Parsers) (clock : Clock) (stores : Stores)
    (request : S3Request) (credential : Credential) (iam : IamSys) (conditions final : ConditionValues)
    (prepared : PreparedIamAuth) (fuel : Nat) (known : request.credential = some credential)
    (isIam : stores.iam = .ok iam) (initial : request.conditions = .ok conditions)
    (isPrepared : iam.prepareAuth clock fuel (credential.args request conditions) credential.groups =
      some prepared) (merged : maybeMergeObjectTagConditions stores request conditions
      (prepared.needsExistingObjectTag || needsTagFromBucket stores request
        (request.bucketArgs credential.accessKey request.isOwner conditions)) = .ok final)
    (denied : prepared.mode.Denies parsers clock (credential.args request final))
    (closed : deniesFinally request.action = true ∨
      request.action = .s3Action .listAllMyBucketsAction ∨
      bucketAllows parsers stores (request.bucketArgs credential.accessKey request.isOwner final) ≠
        .ok true) :
    (∀ more, authorizeRequest parsers clock more stores request ≠ some (.ok ())) ∧
    ((∃ enough answer, iam.tryEvalPrepared parsers clock enough (credential.args request final)
        prepared.mode = some answer) →
      (∃ enough answer, iam.tryEvalPrepared parsers clock enough
        { credential.args request final with denyOnly := true } prepared.mode = some answer) →
      ∃ error, Returns (fun more => authorizeRequest parsers clock more stores request)
        (.error error)) := by
  have run : ∀ more, authorizeRequest parsers clock more stores request =
      authorizeCredential parsers clock more stores request credential := by
    intro more
    unfold authorizeRequest
    rw [known]
  have never : ∀ more, authorizeRequest parsers clock more stores request ≠ some (.ok ()) := by
    intro more done
    rw [run] at done
    obtain ⟨otherIam, otherConditions, otherPrepared, otherFinal, iamAllowed, sameIam, sameConditions,
      preparedAgain, mergedAgain, evaluated, decided⟩ := authorized_steps done
    cases isIam.symm.trans sameIam
    cases initial.symm.trans sameConditions
    have same : otherPrepared = prepared := by
      have left := IamSys.prepare_auth_mono (Nat.le_max_left fuel more) isPrepared
      rw [IamSys.prepare_auth_mono (Nat.le_max_right fuel more) preparedAgain] at left
      exact Option.some.inj left
    subst same
    cases merged.symm.trans mergedAgain
    obtain ⟨resolved, _⟩ := IamSys.prepares_of_done isPrepared
    obtain ⟨isFalse, unguarded⟩ := denied_identity resolved denied evaluated
    subst isFalse
    change deniesFinally request.action = false at unguarded
    unfold credentialDecision at decided
    rw [if_neg (by simp)] at decided
    split at decided
    · cases decided
    · rename_i notListing
      obtain ⟨allowed, isAllowed, decided⟩ := Outcome.bind_eq_ok.1 decided
      rcases closed with guarded | listing | notAllowed
      · rw [unguarded] at guarded
        cases guarded
      · exact notListing listing
      · cases allowed with
        | true => exact notAllowed isAllowed
        | false => cases decided
  refine ⟨never, ?_⟩
  rintro ⟨first, firstAnswer, firstDone⟩ ⟨second, secondAnswer, secondDone⟩
  obtain ⟨enough, isEnough⟩ : ∃ enough, enough = max fuel (max first second) := ⟨_, rfl⟩
  have ends : ∃ outcome,
      authorizeCredential parsers clock enough stores request credential = some outcome := by
    unfold authorizeCredential
    rw [isIam, initial]
    dsimp only [andThen]
    rw [IamSys.prepare_auth_mono (by omega) isPrepared, bind_some, merged]
    dsimp only
    apply and_then_ends
    intro passed _
    obtain ⟨outcome, evaluated⟩ := identity_allowed_ends
      (try_eval_mono (show first ≤ enough by omega) firstDone)
      (try_eval_mono (show second ≤ enough by omega) secondDone)
    rw [evaluated, bind_some]
    exact and_then_ends fun iamAllowed _ => ⟨_, rfl⟩
  obtain ⟨outcome, done⟩ := ends
  have returns : ∀ more, enough ≤ more → authorizeRequest parsers clock more stores request =
      some outcome := by
    intro more larger
    rw [run]
    exact authorize_credential_mono larger done
  cases outcome with
  | error error => exact ⟨error, enough, returns⟩
  | ok passed => exact absurd (returns enough le_rfl) (never enough)

/-- The policy is that of `alice`, and of her service account. -/
def iamWith (policy : Policy) : IamSys := { aliceSys with mergePolicies := fun names => (names, policy) }

def storesWith (policy : Policy) (bucketPolicy : Except StorageError BucketPolicy) : Stores :=
  { iam := .ok (iamWith policy)
    bucketPolicyRaw := bucketPolicy.map some
    bucketPolicy := bucketPolicy
    objectTags := .ok []
    tableDataPlane := fun _ => .ok ()
    anonymousTableDataPlane := .ok ()
    restrictsPublicBucketAccess := .error .configNotFound }

def requestBy (credential : Credential) (action : S3Action) (object : Str) : S3Request :=
  ⟨some credential, false, str "b", object, .s3Action action, .ok [], false⟩

def alice : Credential := ⟨str "alice", none, []⟩

def aliceService : Credential := ⟨str "svc", none, (serviceRead []).claims⟩

def publicPolicy (action : S3Action) : BucketPolicy :=
  ⟨str "2012-10-17",
    [⟨.allow, ⟨[str "*"], []⟩, [.s3Action action], [], [.s3 (str "b/*")], [], ⟨[], [], []⟩⟩]⟩

def deletionDenied : Policy := ⟨str "2012-10-17", [denyStatement .deleteObjectAction (str "b/*")]⟩

theorem denied_deletion_fails :
    ∃ error, Returns (fun more => authorizeRequest Condition.stringParsers ⟨[], []⟩ more
      (storesWith deletionDenied (.ok (publicPolicy .deleteObjectAction)))
      (requestBy alice .deleteObjectAction (str "x"))) (.error error) := by
  have applied : (denyStatement .deleteObjectAction (str "b/*")).check Condition.stringParsers ⟨[], []⟩
      9 (alice.args (requestBy alice .deleteObjectAction (str "x")) []) = some true := by decide
  refine (explicit_deny_is_final Condition.stringParsers ⟨[], []⟩
    (storesWith deletionDenied (.ok (publicPolicy .deleteObjectAction)))
    (requestBy alice .deleteObjectAction (str "x")) alice _ [] [] ⟨false, .regular deletionDenied⟩ 9
    rfl rfl rfl (by rfl) (by rfl) ?_ (.inl (by decide))).2 ?_ ?_
  · refine ⟨deletionDenied, rfl, denyStatement .deleteObjectAction (str "b/*"), List.mem_cons_self, rfl,
      9, ?_⟩
    intro more enough
    exact Statement.check_mono enough applied
  all_goals exact ⟨9, .ok false, by rfl⟩

/-- A service account may delete what is in the bucket, unless it is below the name of the account. -/
def ownFolderDenied : Policy :=
  ⟨str "2012-10-17",
    [⟨.allow, [.s3Action .deleteObjectAction], [], [.s3 (str "b/*")], [], ⟨[], [], []⟩⟩,
      denyStatement .deleteObjectAction (str "b/$\x7baws:AccountId\x7d/*")]⟩

def readingDenied : Policy := ⟨str "2012-10-17", [denyStatement .getObjectAction (str "b/*")]⟩

/-- A bucket policy lets in what the identity policy denies, and a denial that is written about
the account is evaluated about its parent. -/
theorem identity_denials_that_are_not_final :
    ((iamWith readingDenied).prepareAuth ⟨[], []⟩ 9
        (alice.args (requestBy alice .getObjectAction (str "x")) []) none =
          some ⟨false, .regular readingDenied⟩ ∧
      (denyStatement .getObjectAction (str "b/*")).check Condition.stringParsers ⟨[], []⟩ 9
        (alice.args (requestBy alice .getObjectAction (str "x")) []) = some true ∧
      authorizeRequest Condition.stringParsers ⟨[], []⟩ 9
        (storesWith readingDenied (.ok (publicPolicy .getObjectAction)))
        (requestBy alice .getObjectAction (str "x")) = some (.ok ())) ∧
    ((iamWith ownFolderDenied).prepareAuth ⟨[], []⟩ 9
        (aliceService.args (requestBy aliceService .deleteObjectAction (str "svc/x")) []) none =
          some ⟨false, .serviceAccount false false (str "alice") ownFolderDenied none .inherited .none⟩ ∧
      (denyStatement .deleteObjectAction (str "b/$\x7baws:AccountId\x7d/*")).check
        Condition.stringParsers ⟨[], []⟩ 9
        (aliceService.args (requestBy aliceService .deleteObjectAction (str "svc/x")) []) = some true ∧
      authorizeRequest Condition.stringParsers ⟨[], []⟩ 9
        (storesWith ownFolderDenied (.error .configNotFound))
        (requestBy aliceService .deleteObjectAction (str "svc/x")) = some (.ok ())) :=
  ⟨⟨by rfl, by decide, by decide⟩, by rfl, by decide, by decide⟩

end Rustfs.App
