import Rustfs.Library.KeyMap
import Rustfs.Library.Lists
import Rustfs.Library.Utf8
import Mathlib.Data.String.Basic

/-!
# Policies of users and groups

`policy_db_get` of `iam/src/manager.rs` over the cache and the persistent content. A lookup takes a
snapshot of the cache, loads what it misses and adds it to the cache; the clock is read once for
each call. All loads succeed: a load finds what the content has. A load that fails and the update
time that a lookup drops are left out.
-/

namespace Rustfs.Iam

open List Library Library.Lists

section

inductive IamError
  | invalidArgument
  | noSuchGroup (name : String)
  deriving DecidableEq

/-- The parts between the separators that are not blank. -/
def partsOf {α : Type} [BEq α] (separator : α) (blank : List α → Bool) (text : List α) :
    List (List α) :=
  (text.splitOn separator).filter fun part => !blank part

structure MappedPolicy where
  policies : String
  deriving DecidableEq

namespace MappedPolicy

def default : MappedPolicy := ⟨""⟩

/-- A part is dropped when nothing is left of it after `trim`. -/
def toSlice (policy : MappedPolicy) : List String :=
  (partsOf ',' (·.all isWhitespace) policy.policies.toList).map String.ofList

end MappedPolicy

structure GroupInfo where
  status : String
  deriving DecidableEq

def statusDisabled : String := "disabled"

structure Credentials where
  accessKey : String
  secretKey : String
  status : String
  expiration : Option Int
  groups : Option (List String)
  deriving DecidableEq

namespace Credentials

def default : Credentials := ⟨"", "", "", none, none⟩

def isExpired (credentials : Credentials) (now : Int) : Bool :=
  credentials.expiration.any fun expiration => expiration < now

def isValid (credentials : Credentials) (now : Int) : Bool :=
  credentials.status ≠ "off" && 3 ≤ credentials.accessKey.utf8ByteSize &&
    8 ≤ credentials.secretKey.utf8ByteSize && !credentials.isExpired now

end Credentials

/-- What is stored of groups and policy mappings. -/
structure IamContent where
  userPolicies : KeyMap String MappedPolicy
  stsPolicies : KeyMap String MappedPolicy
  groups : KeyMap String GroupInfo
  groupPolicies : KeyMap String MappedPolicy

structure CacheEntity (T : Type) where
  map : KeyMap String T
  loadTime : Int

namespace CacheEntity

variable {T : Type}

/-- `LockedCache::exec` of an insertion. -/
def addOrUpdate (entity : CacheEntity T) (key : String) (value : T) (time : Int) : CacheEntity T :=
  if time ≤ entity.loadTime then entity else { entity with map := entity.map.insert key value }

end CacheEntity

structure CacheState where
  users : CacheEntity Credentials
  userPolicies : CacheEntity MappedPolicy
  stsPolicies : CacheEntity MappedPolicy
  groups : CacheEntity GroupInfo
  groupPolicies : CacheEntity MappedPolicy
  userGroupMemberships : CacheEntity (List String)

namespace CacheState

def addOrUpdateUserPolicy (cache : CacheState) (key : String) (value : MappedPolicy) (time : Int) :
    CacheState :=
  { cache with userPolicies := cache.userPolicies.addOrUpdate key value time }

def addOrUpdateStsPolicy (cache : CacheState) (key : String) (value : MappedPolicy) (time : Int) :
    CacheState :=
  { cache with stsPolicies := cache.stsPolicies.addOrUpdate key value time }

def addOrUpdateGroup (cache : CacheState) (key : String) (value : GroupInfo) (time : Int) : CacheState :=
  { cache with groups := cache.groups.addOrUpdate key value time }

def addOrUpdateGroupPolicy (cache : CacheState) (key : String) (value : MappedPolicy) (time : Int) :
    CacheState :=
  { cache with groupPolicies := cache.groupPolicies.addOrUpdate key value time }

end CacheState

variable (content : IamContent) (now : Int)

def groupInfo (cache : CacheState) (name : String) : CacheState × Option GroupInfo :=
  match cache.groups.map.get name with
  | some group => (cache, some group)
  | none =>
    match content.groups.get name with
    | some group => (cache.addOrUpdateGroup name group now, some group)
    | none => (cache, none)

/-- The policies of an enabled group: a mapping that is not cached is loaded only where no
policy is present. -/
def enabledGroupPolicies (cache : CacheState) (name : String) (policyPresent : Bool) :
    CacheState × List String :=
  match cache.groupPolicies.map.get name with
  | some policy => (cache, policy.toSlice)
  | none =>
    if policyPresent then (cache, [])
    else
      match content.groupPolicies.get name with
      | some policy => (cache.addOrUpdateGroupPolicy name policy now, policy.toSlice)
      | none => (cache, [])

/-- `policy_db_get_internal` of a group. -/
def groupPolicyDbGet (cache : CacheState) (name : String) (policyPresent : Bool) :
    CacheState × Except IamError (List String) :=
  match groupInfo content now cache name with
  | (cache, none) => (cache, .error (.noSuchGroup name))
  | (cache, some group) =>
    if group.status = statusDisabled then (cache, .ok [])
    else
      let (cache, policies) := enabledGroupPolicies content now cache name policyPresent
      (cache, .ok policies)

/-- The mapping of a user: its own, else the one of its sessions. -/
def userMappedPolicy (snapshot cache : CacheState) (name : String) : CacheState × MappedPolicy :=
  match snapshot.userPolicies.map.get name with
  | some policy => (cache, policy)
  | none =>
    match content.userPolicies.get name with
    | some policy => (cache.addOrUpdateUserPolicy name policy now, policy)
    | none =>
      match snapshot.stsPolicies.map.get name with
      | some policy => (cache, policy)
      | none =>
        match content.stsPolicies.get name with
        | some policy => (cache.addOrUpdateStsPolicy name policy now, policy)
        | none => (cache, MappedPolicy.default)

def groupMappedPolicy (snapshot cache : CacheState) (group : String) : CacheState × MappedPolicy :=
  match snapshot.groupPolicies.map.get group with
  | some policy => (cache, policy)
  | none =>
    match content.groupPolicies.get group with
    | some policy => (cache.addOrUpdateGroupPolicy group policy now, policy)
    | none => (cache, MappedPolicy.default)

def cachedDisabled (snapshot : CacheState) (group : String) : Bool :=
  (snapshot.groups.map.get group).any fun info => info.status = statusDisabled

/-- The loop over groups of a user; `none` where it returns without policies. -/
def addGroupPolicies (snapshot : CacheState) : List String → CacheState → List String →
    CacheState × Option (List String)
  | [], cache, policies => (cache, some policies)
  | group :: groups, cache, policies =>
    if cachedDisabled snapshot group then (cache, none)
    else
      let (cache, policy) := groupMappedPolicy content now snapshot cache group
      addGroupPolicies snapshot groups cache (policy.toSlice.foldl (fun all name => all.insert name) policies)

def userOf (users : KeyMap String Credentials) (name : String) : Credentials :=
  (users.get name).getD Credentials.default

def groupsOf (users : KeyMap String Credentials) (memberships : KeyMap String (List String))
    (name : String) : List String :=
  (userOf users name).groups.getD [] ++ (memberships.get name).getD []

/-- `policy_db_get_internal` of a user. -/
def userPolicyDbGet (cache : CacheState) (name : String) : CacheState × List String :=
  if !(userOf cache.users.map name).isValid now then (cache, [])
  else
    let (loaded, policy) := userMappedPolicy content now cache cache name
    let own := policy.toSlice.foldl (fun all name => all.insert name) []
    let groups := groupsOf cache.users.map cache.userGroupMemberships.map name
    let (loaded, policies) := addGroupPolicies content now cache groups loaded own
    (loaded, policies.getD [])

/-- The loop of `policy_db_get_with_groups`; groups that do not exist are passed over. -/
def addRequestGroups (present : Bool) : List String → CacheState → List String →
    CacheState × Except IamError (List String)
  | [], cache, policies => (cache, .ok policies)
  | group :: groups, cache, policies =>
    match groupPolicyDbGet content now cache group present with
    | (cache, .ok more) => addRequestGroups present groups cache (policies ++ more)
    | (cache, .error (.noSuchGroup _)) => addRequestGroups present groups cache policies
    | (cache, .error error) => (cache, .error error)

def policyDbGetWithGroups (cache : CacheState) (policies : List String) (groups : Option (List String)) :
    CacheState × Except IamError (List String) :=
  addRequestGroups content now (!policies.isEmpty) (groups.getD []) cache policies

def policyDbGet (cache : CacheState) (name : String) (groups : Option (List String)) :
    CacheState × Except IamError (List String) :=
  if name.isEmpty then (cache, .error .invalidArgument)
  else
    let (cache, policies) := userPolicyDbGet content now cache name
    policyDbGetWithGroups content now cache policies groups

end

variable {content : IamContent} {now : Int} {group : String}

structure IamContent.Caches (content : IamContent) (cache : CacheState) : Prop where
  userPolicies : ∀ name policy, cache.userPolicies.map.get name = some policy →
    content.userPolicies.get name = some policy
  stsPolicies : ∀ name policy, cache.stsPolicies.map.get name = some policy →
    content.stsPolicies.get name = some policy
  groups : ∀ name group, cache.groups.map.get name = some group → content.groups.get name = some group
  groupPolicies : ∀ name policy, cache.groupPolicies.map.get name = some policy →
    content.groupPolicies.get name = some policy

namespace CacheEntity

variable {T : Type} {entity : CacheEntity T} {key : String} {value : T} {time : Int}
  {wanted : String}

theorem get_add_or_update {found : T}
    (located : (entity.addOrUpdate key value time).map.get wanted = some found) :
    entity.map.get wanted = some found ∨ (wanted = key ∧ found = value) := by
  unfold addOrUpdate at located
  split at located
  · exact .inl located
  · rw [KeyMap.get_insert] at located
    split at located
    · rename_i same
      cases located
      exact .inr ⟨same, rfl⟩
    · exact .inl located

theorem add_or_update_keeps {found : T} (located : entity.map.get wanted = some found)
    (same : wanted = key → found = value) :
    (entity.addOrUpdate key value time).map.get wanted = some found := by
  unfold addOrUpdate
  split
  · exact located
  · rw [KeyMap.get_insert]
    split
    · rename_i isKey
      rw [same isKey]
    · exact located

end CacheEntity

def groupNames (content : IamContent) (group : String) : List String :=
  ((content.groupPolicies.get group).getD MappedPolicy.default).toSlice

/-- The policies of a user without its groups. -/
def ownNames (content : IamContent) (name : String) : List String :=
  (((content.userPolicies.get name).or (content.stsPolicies.get name)).getD MappedPolicy.default).toSlice

/-- The policies of a user with those of its groups. -/
def userNames (content : IamContent) (users : KeyMap String Credentials)
    (memberships : KeyMap String (List String)) (name : String) : List String :=
  ownNames content name ++ (groupsOf users memberships name).flatMap (groupNames content)

/-- A group that exists and is not disabled. -/
def groupEnabled (content : IamContent) (group : String) : Bool :=
  (content.groups.get group).any fun info => info.status ≠ statusDisabled

def groupDisabled (content : IamContent) (group : String) : Bool :=
  (content.groups.get group).any fun info => info.status = statusDisabled

def requestNames (content : IamContent) (groups : Option (List String)) : List String :=
  ((groups.getD []).filter (groupEnabled content)).flatMap (groupNames content)

namespace IamContent.Caches

variable {snapshot cache : CacheState} {policy : MappedPolicy} {name : String}

theorem add_group_policy (caches : content.Caches cache)
    (stored : content.groupPolicies.get group = some policy) :
    content.Caches (cache.addOrUpdateGroupPolicy group policy now) :=
  { caches with
    groupPolicies := fun name found located => by
      rcases CacheEntity.get_add_or_update located with older | ⟨rfl, rfl⟩
      · exact caches.groupPolicies name found older
      · exact stored }

theorem add_group (caches : content.Caches cache) {group : GroupInfo}
    (stored : content.groups.get name = some group) :
    content.Caches (cache.addOrUpdateGroup name group now) :=
  { caches with
    groups := fun name found located => by
      rcases CacheEntity.get_add_or_update located with older | ⟨rfl, rfl⟩
      · exact caches.groups name found older
      · exact stored }

theorem add_user_policy (caches : content.Caches cache)
    (stored : content.userPolicies.get name = some policy) :
    content.Caches (cache.addOrUpdateUserPolicy name policy now) :=
  { caches with
    userPolicies := fun name found located => by
      rcases CacheEntity.get_add_or_update located with older | ⟨rfl, rfl⟩
      · exact caches.userPolicies name found older
      · exact stored }

theorem add_sts_policy (caches : content.Caches cache)
    (stored : content.stsPolicies.get name = some policy) :
    content.Caches (cache.addOrUpdateStsPolicy name policy now) :=
  { caches with
    stsPolicies := fun name found located => by
      rcases CacheEntity.get_add_or_update located with older | ⟨rfl, rfl⟩
      · exact caches.stsPolicies name found older
      · exact stored }

theorem user_mapped_policy (fromContent : content.Caches snapshot) (caches : content.Caches cache)
    (name : String) :
    (userMappedPolicy content now snapshot cache name).2.toSlice = ownNames content name ∧
      content.Caches (userMappedPolicy content now snapshot cache name).1 ∧
      (userMappedPolicy content now snapshot cache name).1.groupPolicies = cache.groupPolicies := by
  unfold userMappedPolicy ownNames
  cases cached : snapshot.userPolicies.map.get name with
  | some policy =>
    rw [fromContent.userPolicies name policy cached]
    exact ⟨rfl, caches, rfl⟩
  | none =>
    cases stored : content.userPolicies.get name with
    | some policy => exact ⟨rfl, caches.add_user_policy stored, rfl⟩
    | none =>
      cases stsCached : snapshot.stsPolicies.map.get name with
      | some policy =>
        rw [fromContent.stsPolicies name policy stsCached]
        exact ⟨rfl, caches, rfl⟩
      | none =>
        cases stsStored : content.stsPolicies.get name with
        | some policy => exact ⟨rfl, caches.add_sts_policy stsStored, rfl⟩
        | none => exact ⟨rfl, caches, rfl⟩

def LaterGroups (cache later : CacheState) (groups : List String) : Prop :=
  (∀ group policy, cache.groupPolicies.map.get group = some policy →
    later.groupPolicies.map.get group = some policy) ∧
  ∀ group policy, later.groupPolicies.map.get group = some policy →
    cache.groupPolicies.map.get group = some policy ∨ group ∈ groups

theorem group_mapped_policy (fromContent : content.Caches snapshot) (caches : content.Caches cache)
    (group : String) :
    (groupMappedPolicy content now snapshot cache group).2.toSlice = groupNames content group ∧
      content.Caches (groupMappedPolicy content now snapshot cache group).1 ∧
      LaterGroups cache (groupMappedPolicy content now snapshot cache group).1 [group] := by
  have unchanged : LaterGroups cache cache [group] := ⟨fun _ _ kept => kept, fun _ _ kept => .inl kept⟩
  unfold groupMappedPolicy groupNames
  cases cached : snapshot.groupPolicies.map.get group with
  | some policy =>
    rw [fromContent.groupPolicies group policy cached]
    exact ⟨rfl, caches, unchanged⟩
  | none =>
    cases stored : content.groupPolicies.get group with
    | none => exact ⟨rfl, caches, unchanged⟩
    | some policy =>
      refine ⟨rfl, caches.add_group_policy stored, ?_, ?_⟩
      · intro name found located
        apply CacheEntity.add_or_update_keeps located
        rintro rfl
        have isStored := caches.groupPolicies name found located
        rw [stored] at isStored
        exact (Option.some.inj isStored).symm
      · intro name found located
        rcases CacheEntity.get_add_or_update located with older | ⟨rfl, _⟩
        · exact .inl older
        · exact .inr mem_cons_self

/-- The loop over the groups of a user stops at one that is cached as disabled, and else
collects the policies of all of them. -/
theorem add_group_policies (fromContent : content.Caches snapshot) (groups : List String)
    (caches : content.Caches cache) (policies : List String) :
    content.Caches (addGroupPolicies content now snapshot groups cache policies).1 ∧
      LaterGroups cache (addGroupPolicies content now snapshot groups cache policies).1 groups ∧
      ((∃ group ∈ groups, cachedDisabled snapshot group = true) ∧
          (addGroupPolicies content now snapshot groups cache policies).2 = none ∨
        (∀ group ∈ groups, cachedDisabled snapshot group = false) ∧
          ∃ all, (addGroupPolicies content now snapshot groups cache policies).2 = some all ∧
            ∀ name, name ∈ all ↔ name ∈ policies ∨ name ∈ groups.flatMap (groupNames content)) := by
  induction groups generalizing cache policies with
  | nil =>
    refine ⟨caches, ⟨fun _ _ kept => kept, fun _ _ kept => .inl kept⟩, .inr ⟨nofun, policies, rfl, ?_⟩⟩
    intro name
    simp
  | cons group groups ih =>
    unfold addGroupPolicies
    cases disabled : cachedDisabled snapshot group with
    | true =>
      exact ⟨caches, ⟨fun _ _ kept => kept, fun _ _ kept => .inl kept⟩,
        .inl ⟨⟨group, mem_cons_self, disabled⟩, rfl⟩⟩
    | false =>
      obtain ⟨slice, cachesNext, firstLater⟩ :=
        @group_mapped_policy content now snapshot cache fromContent caches group
      obtain ⟨cachesLast, restLater, outcome⟩ := ih cachesNext
        ((groupMappedPolicy content now snapshot cache group).2.toSlice.foldl
          (fun all name => all.insert name) policies)
      refine ⟨cachesLast, ⟨?_, ?_⟩, ?_⟩
      · intro name found located
        exact restLater.1 name found (firstLater.1 name found located)
      · intro name found located
        rcases restLater.2 name found located with next | inRest
        · rcases firstLater.2 name found next with older | isGroup
          · exact .inl older
          · rw [mem_singleton.1 isGroup]
            exact .inr mem_cons_self
        · exact .inr (mem_cons_of_mem _ inRest)
      · rcases outcome with ⟨⟨other, inRest, isDisabled⟩, stopped⟩ | ⟨enabled, all, collected, members⟩
        · exact .inl ⟨⟨other, mem_cons_of_mem _ inRest, isDisabled⟩, stopped⟩
        · refine .inr ⟨?_, all, collected, ?_⟩
          · intro other member
            rcases mem_cons.1 member with rfl | inRest
            · exact disabled
            · exact enabled other inRest
          · intro name
            rw [members name, mem_insert_all, slice, flatMap_cons, mem_append, or_assoc]

/-- The policies of the user: none for a user that is not valid or has a group that is cached
as disabled. -/
theorem user_policy_db_get (caches : content.Caches cache) (name : String) :
    content.Caches (userPolicyDbGet content now cache name).1 ∧
      LaterGroups cache (userPolicyDbGet content now cache name).1
        (groupsOf cache.users.map cache.userGroupMemberships.map name) ∧
      (((userOf cache.users.map name).isValid now = false ∨
          ∃ group ∈ groupsOf cache.users.map cache.userGroupMemberships.map name,
            cachedDisabled cache group = true) ∧
          (userPolicyDbGet content now cache name).2 = [] ∨
        (userOf cache.users.map name).isValid now = true ∧
          (∀ group ∈ groupsOf cache.users.map cache.userGroupMemberships.map name,
            cachedDisabled cache group = false) ∧
          ∀ policy, policy ∈ (userPolicyDbGet content now cache name).2 ↔
            policy ∈ userNames content cache.users.map cache.userGroupMemberships.map name) := by
  cases valid : (userOf cache.users.map name).isValid now with
  | false =>
    have nothing : userPolicyDbGet content now cache name = (cache, []) := by
      unfold userPolicyDbGet
      rw [valid]
      rfl
    rw [nothing]
    exact ⟨caches, ⟨fun _ _ kept => kept, fun _ _ kept => .inl kept⟩, .inl ⟨.inl rfl, rfl⟩⟩
  | true =>
    unfold userPolicyDbGet
    rw [valid, if_neg (by decide)]
    obtain ⟨slice, cachesNext, sameGroups⟩ :=
      @user_mapped_policy content now cache cache caches caches name
    obtain ⟨cachesLast, later, outcome⟩ := @add_group_policies content now cache _ caches
      (groupsOf cache.users.map cache.userGroupMemberships.map name) cachesNext
      ((userMappedPolicy content now cache cache name).2.toSlice.foldl
        (fun all name => all.insert name) [])
    unfold LaterGroups at later
    rw [sameGroups] at later
    refine ⟨cachesLast, later, ?_⟩
    rcases outcome with ⟨disabled, stopped⟩ | ⟨enabled, all, collected, members⟩
    · left
      refine ⟨.inr disabled, ?_⟩
      dsimp only
      rw [stopped, Option.getD_none]
    · right
      refine ⟨rfl, enabled, ?_⟩
      intro policy
      dsimp only
      rw [collected, Option.getD_some, members policy, mem_insert_all, slice]
      unfold userNames
      simp

theorem group_info (caches : content.Caches cache) (group : String) :
    content.Caches (groupInfo content now cache group).1 ∧
      (groupInfo content now cache group).1.groupPolicies = cache.groupPolicies ∧
      (groupInfo content now cache group).2 = content.groups.get group := by
  unfold groupInfo
  cases cached : cache.groups.map.get group with
  | some info => exact ⟨caches, rfl, (caches.groups group info cached).symm⟩
  | none =>
    cases stored : content.groups.get group with
    | some info => exact ⟨caches.add_group stored, rfl, rfl⟩
    | none => exact ⟨caches, rfl, rfl⟩

theorem enabled_group_policies (caches : content.Caches cache) (group : String) (present : Bool) :
    content.Caches (enabledGroupPolicies content now cache group present).1 ∧
      (present = true →
        (enabledGroupPolicies content now cache group present).1.groupPolicies = cache.groupPolicies) ∧
      ∀ policy, policy ∈ (enabledGroupPolicies content now cache group present).2 ↔
        (present = true → (cache.groupPolicies.map.get group).isSome = true) ∧
          policy ∈ groupNames content group := by
  unfold enabledGroupPolicies groupNames
  cases cached : cache.groupPolicies.map.get group with
  | some policy =>
    rw [caches.groupPolicies group policy cached]
    exact ⟨caches, fun _ => rfl, fun name => by simp⟩
  | none =>
    cases present with
    | true => exact ⟨caches, fun _ => rfl, fun name => by simp⟩
    | false =>
      cases stored : content.groupPolicies.get group with
      | some policy => exact ⟨caches.add_group_policy stored, nofun, fun name => by simp⟩
      | none =>
        have noName : MappedPolicy.default.toSlice = [] := by decide
        exact ⟨caches, nofun, fun name => by simp [noName]⟩

theorem group_policy_db_get (caches : content.Caches cache) (group : String) (present : Bool) :
    content.Caches (groupPolicyDbGet content now cache group present).1 ∧
      (present = true →
        (groupPolicyDbGet content now cache group present).1.groupPolicies = cache.groupPolicies) ∧
      ((groupPolicyDbGet content now cache group present).2 = .error (.noSuchGroup group) ∧
          groupEnabled content group = false ∨
        ∃ more, (groupPolicyDbGet content now cache group present).2 = .ok more ∧
          ∀ policy, policy ∈ more ↔ groupEnabled content group = true ∧
            (present = true → (cache.groupPolicies.map.get group).isSome = true) ∧
            policy ∈ groupNames content group) := by
  obtain ⟨cachesInfo, sameInfo, isInfo⟩ := @group_info content now cache caches group
  unfold groupPolicyDbGet
  cases found : groupInfo content now cache group with
  | mk later info =>
    rw [found] at cachesInfo sameInfo isInfo
    unfold groupEnabled
    rw [← isInfo]
    cases info with
    | none => exact ⟨cachesInfo, fun _ => sameInfo, .inl ⟨rfl, rfl⟩⟩
    | some info =>
      dsimp only
      split
      · rename_i disabled
        refine ⟨cachesInfo, fun _ => sameInfo, .inr ⟨[], rfl, ?_⟩⟩
        intro policy
        simp [disabled]
      · rename_i enabled
        obtain ⟨cachesLast, sameLast, members⟩ :=
          @enabled_group_policies content now later cachesInfo group present
        refine ⟨cachesLast, fun isPresent => (sameLast isPresent).trans sameInfo, .inr ⟨_, rfl, ?_⟩⟩
        intro policy
        rw [members policy, sameInfo]
        simp [enabled]

theorem add_request_groups (groups : List String) (caches : content.Caches cache) (present : Bool)
    (policies : List String) :
    ∃ all, (addRequestGroups content now present groups cache policies).2 = .ok all ∧
      ∀ policy, policy ∈ all ↔ policy ∈ policies ∨ ∃ group ∈ groups,
        groupEnabled content group = true ∧
          (present = true → (cache.groupPolicies.map.get group).isSome = true) ∧
          policy ∈ groupNames content group := by
  induction groups generalizing cache policies with
  | nil => exact ⟨policies, rfl, fun policy => by simp⟩
  | cons group groups ih =>
    obtain ⟨cachesNext, sameNext, outcome⟩ :=
      @group_policy_db_get content now cache caches group present
    unfold addRequestGroups
    cases got : groupPolicyDbGet content now cache group present with
    | mk next result =>
      rw [got] at cachesNext sameNext outcome
      dsimp only at cachesNext sameNext outcome
      have sameCached : ∀ other, (present = true → (next.groupPolicies.map.get other).isSome = true) ↔
          (present = true → (cache.groupPolicies.map.get other).isSome = true) := by
        intro other
        constructor
        · intro cached isPresent
          rw [← sameNext isPresent]
          exact cached isPresent
        · intro cached isPresent
          rw [sameNext isPresent]
          exact cached isPresent
      rcases outcome with ⟨missing, notEnabled⟩ | ⟨more, found, members⟩
      · rw [missing]
        obtain ⟨all, collected, allMembers⟩ := ih cachesNext policies
        refine ⟨all, collected, ?_⟩
        intro policy
        rw [allMembers policy]
        simp only [sameCached]
        simp [notEnabled]
      · rw [found]
        obtain ⟨all, collected, allMembers⟩ := ih cachesNext (policies ++ more)
        refine ⟨all, collected, ?_⟩
        intro policy
        rw [allMembers policy, mem_append, members policy]
        simp only [sameCached, exists_mem_cons_iff]
        rw [or_assoc]

end IamContent.Caches

def SameNames : Except IamError (List String) → Except IamError (List String) → Prop
  | .ok names, .ok others => ∀ policy, policy ∈ names ↔ policy ∈ others
  | .error error, .error other => error = other
  | _, _ => False

section Lookup

variable {cache : CacheState} {name : String} {groups : Option (List String)}
  {users : KeyMap String Credentials} {memberships : KeyMap String (List String)}

structure CacheState.HoldsUsers (cache : CacheState) (users : KeyMap String Credentials)
    (memberships : KeyMap String (List String)) : Prop where
  users : cache.users.map = users
  memberships : cache.userGroupMemberships.map = memberships

theorem mem_request_names {policy : String} :
    policy ∈ requestNames content groups ↔ ∃ group ∈ groups.getD [],
      groupEnabled content group = true ∧ policy ∈ groupNames content group := by
  unfold requestNames
  simp only [mem_flatMap, mem_filter, and_assoc]

theorem group_names_subset {policy : String} (member : group ∈ groupsOf users memberships name)
    (inGroup : policy ∈ groupNames content group) :
    policy ∈ userNames content users memberships name :=
  mem_append_right _ (mem_flatMap.2 ⟨group, member, inGroup⟩)

/-- What a lookup finds: the policies of the groups of the request alone, where the user has
none from this cache; else the policies of the user and those of cached groups. -/
theorem policy_db_get_names (caches : content.Caches cache) (holds : cache.HoldsUsers users memberships)
    (named : name ≠ "") :
    ∃ all, (policyDbGet content now cache name groups).2 = .ok all ∧
      (((userOf users name).isValid now = false ∨
          (∃ group ∈ groupsOf users memberships name, cachedDisabled cache group = true) ∨
          userNames content users memberships name = []) ∧
          (∀ policy, policy ∈ all ↔ policy ∈ requestNames content groups) ∨
        (userOf users name).isValid now = true ∧
          (∀ group ∈ groupsOf users memberships name, cachedDisabled cache group = false) ∧
          userNames content users memberships name ≠ [] ∧
          (∀ policy, policy ∈ all ↔ policy ∈ userNames content users memberships name ∨
            ∃ group ∈ groups.getD [], groupEnabled content group = true ∧
              (cache.groupPolicies.map.get group).isSome = true ∧
              policy ∈ groupNames content group)) := by
  have isNamed : name.isEmpty = false := by
    cases isEmpty : name.isEmpty with
    | false => rfl
    | true => exact absurd (String.isEmpty_iff.1 isEmpty) named
  obtain ⟨cachesUser, later, outcome⟩ := @IamContent.Caches.user_policy_db_get content now cache caches name
  rw [holds.users, holds.memberships] at later outcome
  unfold policyDbGet policyDbGetWithGroups
  rw [isNamed, if_neg nofun]
  cases got : userPolicyDbGet content now cache name with
  | mk next policies =>
    rw [got] at cachesUser later outcome
    obtain ⟨all, collected, members⟩ := @IamContent.Caches.add_request_groups content now next
      (groups.getD []) cachesUser (!policies.isEmpty) policies
    refine ⟨all, collected, ?_⟩
    have fromNone : policies = [] → ∀ policy, policy ∈ all ↔ policy ∈ requestNames content groups := by
      rintro rfl policy
      rw [members policy, mem_request_names]
      simp
    rcases outcome with ⟨stopped, nothing⟩ | ⟨valid, enabled, ofUser⟩
    · left
      refine ⟨?_, fromNone nothing⟩
      rcases stopped with notValid | disabled
      · exact .inl notValid
      · exact .inr (.inl disabled)
    · by_cases noNames : userNames content users memberships name = []
      · left
        refine ⟨.inr (.inr noNames), fromNone ?_⟩
        apply eq_nil_iff_forall_not_mem.2
        intro policy member
        rw [ofUser policy, noNames] at member
        cases member
      · right
        refine ⟨valid, enabled, noNames, ?_⟩
        have present : (!policies.isEmpty) = true := by
          obtain ⟨policy, member⟩ := exists_mem_of_ne_nil _ noNames
          have inside := (ofUser policy).2 member
          cases policies with
          | nil => cases inside
          | cons first rest => rfl
        intro policy
        rw [members policy, ofUser policy, present]
        constructor
        · rintro (ofThis | ⟨group, inGroups, isEnabled, cached, inGroup⟩)
          · exact .inl ofThis
          · obtain ⟨mapping, isMapping⟩ := Option.isSome_iff_exists.1 (cached rfl)
            rcases later.2 group mapping isMapping with before | ofUserGroup
            · refine .inr ⟨group, inGroups, isEnabled, ?_, inGroup⟩
              rw [before]
              rfl
            · exact .inl (group_names_subset ofUserGroup inGroup)
        · rintro (ofThis | ⟨group, inGroups, isEnabled, cached, inGroup⟩)
          · exact .inl ofThis
          · obtain ⟨mapping, isMapping⟩ := Option.isSome_iff_exists.1 cached
            refine .inr ⟨group, inGroups, isEnabled, fun _ => ?_, inGroup⟩
            rw [later.1 group mapping isMapping]
            rfl

theorem disabled_of_cached (caches : content.Caches cache)
    (disabled : cachedDisabled cache group = true) : groupDisabled content group = true := by
  unfold cachedDisabled at disabled
  cases cached : cache.groups.map.get group with
  | none =>
    rw [cached] at disabled
    cases disabled
  | some info =>
    rw [cached] at disabled
    unfold groupDisabled
    rw [caches.groups group info cached]
    exact disabled

end Lookup

section Independence

variable (content : IamContent) (users : KeyMap String Credentials)
  (memberships : KeyMap String (List String)) (now : Int) (name : String)
  (groups : Option (List String)) {cache : CacheState}

/-- The cache with all of the content, and the one with the users alone. -/
def warmCache : CacheState :=
  ⟨⟨users, 0⟩, ⟨content.userPolicies, 0⟩, ⟨content.stsPolicies, 0⟩, ⟨content.groups, 0⟩,
    ⟨content.groupPolicies, 0⟩, ⟨memberships, 0⟩⟩

def coldCache : CacheState :=
  ⟨⟨users, 0⟩, ⟨KeyMap.empty, 0⟩, ⟨KeyMap.empty, 0⟩, ⟨KeyMap.empty, 0⟩, ⟨KeyMap.empty, 0⟩,
    ⟨memberships, 0⟩⟩

/-- The user has no policies, or the groups of the request add none to those it has; and
where one of its own groups is disabled, these groups have all of them. -/
def CacheIndependent : Prop :=
  name = "" ∨ (userOf users name).isValid now = false ∨ userNames content users memberships name = [] ∨
    (requestNames content groups ⊆ userNames content users memberships name ∧
      ((∃ group ∈ groupsOf users memberships name, groupDisabled content group = true) →
        userNames content users memberships name ⊆ requestNames content groups))

theorem warm_caches : content.Caches (warmCache content users memberships) :=
  ⟨fun _ _ found => found, fun _ _ found => found, fun _ _ found => found, fun _ _ found => found⟩

theorem cold_caches : content.Caches (coldCache users memberships) :=
  ⟨nofun, nofun, nofun, nofun⟩

variable {content users memberships now name groups}

theorem names_of_independent (valid : (userOf users name).isValid now = true)
    (someNames : userNames content users memberships name ≠ [])
    (within : requestNames content groups ⊆ userNames content users memberships name)
    (covered : (∃ group ∈ groupsOf users memberships name, groupDisabled content group = true) →
      userNames content users memberships name ⊆ requestNames content groups)
    (named : name ≠ "") (caches : content.Caches cache)
    (holds : cache.HoldsUsers users memberships) :
    ∃ all, (policyDbGet content now cache name groups).2 = .ok all ∧
      ∀ policy, policy ∈ all ↔ policy ∈ userNames content users memberships name := by
  obtain ⟨all, found, outcome⟩ := @policy_db_get_names content now cache name groups users memberships caches holds named
  refine ⟨all, found, ?_⟩
  rcases outcome with ⟨stopped, members⟩ | ⟨_, _, _, members⟩
  · have disabled : ∃ group ∈ groupsOf users memberships name, groupDisabled content group = true := by
      rcases stopped with notValid | ⟨group, member, disabled⟩ | nothing
      · rw [valid] at notValid
        cases notValid
      · exact ⟨group, member, disabled_of_cached caches disabled⟩
      · exact absurd nothing someNames
    intro policy
    rw [members policy]
    exact ⟨fun member => within member, fun member => covered disabled member⟩
  · intro policy
    rw [members policy]
    constructor
    · rintro (ofUser | ⟨group, inGroups, isEnabled, _, inGroup⟩)
      · exact ofUser
      · exact within (mem_request_names.2 ⟨group, inGroups, isEnabled, inGroup⟩)
    · exact .inl

theorem names_of_request
    (nothing : (userOf users name).isValid now = false ∨ userNames content users memberships name = [])
    (named : name ≠ "") (caches : content.Caches cache)
    (holds : cache.HoldsUsers users memberships) :
    ∃ all, (policyDbGet content now cache name groups).2 = .ok all ∧
      ∀ policy, policy ∈ all ↔ policy ∈ requestNames content groups := by
  obtain ⟨all, found, outcome⟩ :=
    @policy_db_get_names content now cache name groups users memberships caches holds named
  refine ⟨all, found, ?_⟩
  rcases outcome with ⟨_, members⟩ | ⟨valid, _, someNames, _⟩
  · exact members
  · rcases nothing with notValid | noNames
    · rw [valid] at notValid
      cases notValid
    · exact absurd noNames someNames

/-- The cache with all of the content: the disabled groups are known, and no group of the
request is missing. -/
theorem warm_names (valid : (userOf users name).isValid now = true)
    (someNames : userNames content users memberships name ≠ []) (named : name ≠ "") :
    ∃ all, (policyDbGet content now (warmCache content users memberships) name groups).2 = .ok all ∧
      ∀ policy, policy ∈ all ↔ policy ∈ requestNames content groups ∨
        ((∀ group ∈ groupsOf users memberships name, groupDisabled content group = false) ∧
          policy ∈ userNames content users memberships name) := by
  obtain ⟨all, found, outcome⟩ := @policy_db_get_names content now _ name groups users memberships
    (warm_caches content users memberships) ⟨rfl, rfl⟩ named
  refine ⟨all, found, ?_⟩
  intro policy
  rcases outcome with ⟨stopped, members⟩ | ⟨_, enabled, _, members⟩
  · rw [members policy]
    constructor
    · exact .inl
    · rintro (ofRequest | ⟨noneDisabled, _⟩)
      · exact ofRequest
      · rcases stopped with notValid | ⟨group, member, disabled⟩ | nothing
        · rw [valid] at notValid
          cases notValid
        · have isDisabled : groupDisabled content group = true := disabled
          rw [noneDisabled group member] at isDisabled
          cases isDisabled
        · exact absurd nothing someNames
  · rw [members policy, mem_request_names]
    constructor
    · rintro (ofUser | ⟨group, inGroups, isEnabled, _, inGroup⟩)
      · exact .inr ⟨enabled, ofUser⟩
      · exact .inl ⟨group, inGroups, isEnabled, inGroup⟩
    · rintro (⟨group, inGroups, isEnabled, inGroup⟩ | ⟨_, ofUser⟩)
      · refine .inr ⟨group, inGroups, isEnabled, ?_, inGroup⟩
        change (content.groupPolicies.get group).isSome = true
        cases stored : content.groupPolicies.get group with
        | some policy => rfl
        | none =>
          unfold groupNames at inGroup
          rw [stored] at inGroup
          cases inGroup
      · exact .inl ofUser

/-- The cache with the users alone: no group is known to be disabled, and none of the
request is looked for. -/
theorem cold_names (valid : (userOf users name).isValid now = true)
    (someNames : userNames content users memberships name ≠ []) (named : name ≠ "") :
    ∃ all, (policyDbGet content now (coldCache users memberships) name groups).2 = .ok all ∧
      ∀ policy, policy ∈ all ↔ policy ∈ userNames content users memberships name := by
  obtain ⟨all, found, outcome⟩ := @policy_db_get_names content now _ name groups users memberships
    (cold_caches content users memberships) ⟨rfl, rfl⟩ named
  refine ⟨all, found, ?_⟩
  intro policy
  rcases outcome with ⟨stopped, _⟩ | ⟨_, _, _, members⟩
  · rcases stopped with notValid | ⟨group, _, disabled⟩ | nothing
    · rw [valid] at notValid
      cases notValid
    · cases disabled
    · exact absurd nothing someNames
  · rw [members policy]
    constructor
    · rintro (ofUser | ⟨_, _, _, cached, _⟩)
      · exact ofUser
      · cases cached
    · exact .inl

/-- Every two caches of the content with the same users and memberships give the same policies
exactly under the condition. The names are compared as sets, since the order of a result follows
that of the cached maps. -/
theorem policy_db_get_cache_independent_iff (content : IamContent) (users : KeyMap String Credentials)
    (memberships : KeyMap String (List String)) (now : Int) (name : String)
    (groups : Option (List String)) :
    (∀ cache other, content.Caches cache → content.Caches other →
      cache.HoldsUsers users memberships → other.HoldsUsers users memberships →
        SameNames (policyDbGet content now cache name groups).2
          (policyDbGet content now other name groups).2) ↔
      CacheIndependent content users memberships now name groups := by
  constructor
  · intro same
    by_cases named : name = ""
    · exact .inl named
    · cases valid : (userOf users name).isValid now with
      | false => exact .inr (.inl valid)
      | true =>
        by_cases someNames : userNames content users memberships name = []
        · exact .inr (.inr (.inl someNames))
        · obtain ⟨warm, isWarm, warmMembers⟩ :=
            @warm_names content users memberships now name groups valid someNames named
          obtain ⟨cold, isCold, coldMembers⟩ :=
            @cold_names content users memberships now name groups valid someNames named
          have agree := same _ _ (warm_caches content users memberships)
            (cold_caches content users memberships) ⟨rfl, rfl⟩ ⟨rfl, rfl⟩
          rw [isWarm, isCold] at agree
          refine .inr (.inr (.inr ⟨?_, ?_⟩))
          · intro policy member
            exact (coldMembers policy).1 ((agree policy).1 ((warmMembers policy).2 (.inl member)))
          · rintro ⟨group, inGroups, disabled⟩ policy member
            rcases (warmMembers policy).1 ((agree policy).2 ((coldMembers policy).2 member)) with
              ofRequest | ⟨noneDisabled, _⟩
            · exact ofRequest
            · rw [noneDisabled group inGroups] at disabled
              cases disabled
  · intro independent cache other caches otherCaches holds otherHolds
    by_cases named : name = ""
    · subst named
      exact rfl
    · have sameMembers : ∀ names : List String,
          (∃ all, (policyDbGet content now cache name groups).2 = .ok all ∧
            ∀ policy, policy ∈ all ↔ policy ∈ names) →
          (∃ all, (policyDbGet content now other name groups).2 = .ok all ∧
            ∀ policy, policy ∈ all ↔ policy ∈ names) →
          SameNames (policyDbGet content now cache name groups).2
            (policyDbGet content now other name groups).2 := by
        rintro names ⟨first, isFirst, firstMembers⟩ ⟨second, isSecond, secondMembers⟩
        rw [isFirst, isSecond]
        exact fun policy => (firstMembers policy).trans (secondMembers policy).symm
      by_cases nothing : (userOf users name).isValid now = false ∨
          userNames content users memberships name = []
      · exact sameMembers _ (names_of_request nothing named caches holds)
          (names_of_request nothing named otherCaches otherHolds)
      · rw [not_or, Bool.not_eq_false] at nothing
        obtain ⟨valid, someNames⟩ := nothing
        rcases independent with isEmpty | notValid | noNames | ⟨within, covered⟩
        · exact absurd isEmpty named
        · rw [valid] at notValid
          cases notValid
        · exact absurd noNames someNames
        · exact sameMembers _ (names_of_independent valid someNames within covered named caches holds)
            (names_of_independent valid someNames within covered named otherCaches otherHolds)

end Independence

def aliceContent : IamContent where
  userPolicies := KeyMap.empty.insert "alice" ⟨"readonly"⟩
  stsPolicies := KeyMap.empty
  groups := KeyMap.empty.insert "admins" ⟨"enabled"⟩
  groupPolicies := KeyMap.empty.insert "admins" ⟨"consoleAdmin"⟩

def aliceUsers : KeyMap String Credentials :=
  KeyMap.empty.insert "alice" ⟨"alice", "alice-secret", "on", none, none⟩

theorem cold_cache_drops_group_policies :
    (policyDbGet aliceContent 0 (warmCache aliceContent aliceUsers KeyMap.empty) "alice"
        (some ["admins"])).2 = .ok ["readonly", "consoleAdmin"] ∧
      (policyDbGet aliceContent 0 (coldCache aliceUsers KeyMap.empty) "alice"
        (some ["admins"])).2 = .ok ["readonly"] ∧
      ¬∀ cache other, aliceContent.Caches cache → aliceContent.Caches other →
        cache.HoldsUsers aliceUsers KeyMap.empty → other.HoldsUsers aliceUsers KeyMap.empty →
          SameNames (policyDbGet aliceContent 0 cache "alice" (some ["admins"])).2
            (policyDbGet aliceContent 0 other "alice" (some ["admins"])).2 := by
  have warm : (policyDbGet aliceContent 0 (warmCache aliceContent aliceUsers KeyMap.empty) "alice"
      (some ["admins"])).2 = .ok ["readonly", "consoleAdmin"] := by decide
  have cold : (policyDbGet aliceContent 0 (coldCache aliceUsers KeyMap.empty) "alice"
      (some ["admins"])).2 = .ok ["readonly"] := by decide
  refine ⟨warm, cold, ?_⟩
  intro same
  have agree := same _ _ (warm_caches aliceContent aliceUsers KeyMap.empty)
    (cold_caches aliceContent aliceUsers KeyMap.empty) ⟨rfl, rfl⟩ ⟨rfl, rfl⟩
  have missing := (agree "consoleAdmin").1 (by decide)
  revert missing
  decide

end Rustfs.Iam
