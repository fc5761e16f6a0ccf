import Mathlib.Data.List.Induction
import Rustfs.Filemeta.Metacache
import Rustfs.Filemeta.VersionFrom

/-!
# Candidates for healing

`MetaCacheEntries::discover_heal_candidates`: the versions that some drive carries, each with the
number of drives. The main list is capped; what does not fit goes to a second list. The map of the
keys seen is the search for a key here. The name check of Windows is left out.
-/

namespace Rustfs.Filemeta

open List Utils

def maxMetaCacheHealCandidates : Nat := 1024

def maxMetaCacheHealTruncatedObjects : Nat := 64

inductive MetaCacheHealCandidateKind
  | object
  | deleteMarker
  | unversionedObject
  deriving DecidableEq

structure HealKey where
  object : String
  versionId : Option Uuid
  kind : MetaCacheHealCandidateKind
  deriving DecidableEq

structure MetaCacheHealCandidate extends HealKey where
  replicaCount : Nat
  deriving DecidableEq

structure MetaCacheHealDiscovery where
  candidates : List MetaCacheHealCandidate
  unverifiedCount : Nat
  truncated : Bool
  truncatedObjects : List String
  truncatedCandidates : List MetaCacheHealCandidate
  deriving DecidableEq

def MetaCacheHealDiscovery.default : MetaCacheHealDiscovery := ⟨[], 0, false, [], []⟩

def validComponents : List (List Char) → Bool
  | [] => true
  | component :: rest =>
    component ≠ ['.'] && component ≠ ['.', '.'] && (!component.isEmpty || rest.isEmpty) &&
      validComponents rest

def validHealCandidateName (bucket : String) (entry : MetaCacheEntry) : Bool :=
  !bucket.isEmpty && !entry.name.isEmpty && !entry.isDir && !entry.name.toList.any isControl &&
    validComponents (entry.name.toList.splitOn '/')

/-- The kind of a body that holds what its type says and nothing else, with its id. -/
def healIdentity (env : Runtime) (version : FileMetaVersion) :
    Option (MetaCacheHealCandidateKind × Option Uuid) :=
  match version.versionType, version.object, version.deleteMarker, version.legacyObject with
  | .object, some object, none, none =>
    match normalId object.versionId with
    | some id => some (.object, some id)
    | none => some (.unversionedObject, none)
  | .delete, none, some marker, none =>
    (normalId marker.versionId).map fun id => (.deleteMarker, some id)
  | .legacy, none, none, some legacy =>
    if legacy.versionId.isEmpty then some (.unversionedObject, none)
    else (normalId (env.parseUuid legacy.versionId)).map fun id => (.object, some id)
  | _, _, _, _ => none

/-- One version of an entry: the candidate it is, if it is one, and how often it counts as
unverified. An unversioned object may be read without all of its parts. -/
def readHealVersion (env : Runtime) (bucket name : String) (shallow : FileMetaShallowVersion) :
    Option HealKey × Nat :=
  match shallow.parseVersionMeta env with
  | .error _ => (none, 1)
  | .ok version =>
    if !version.valid then (none, 1)
    else if version.freeVersion then (none, 0)
    else
      let payloadHeader := version.header env
      if normalId shallow.header.versionId ≠ normalId payloadHeader.versionId ||
          shallow.header.versionType ≠ payloadHeader.versionType then (none, 1)
      else
        match healIdentity env version with
        | none => (none, 1)
        | some (kind, versionId) =>
          if normalId payloadHeader.versionId ≠ versionId then (none, 1)
          else
            let named (fileInfo : FileInfo) (unverified : Nat) : Option HealKey × Nat :=
              if fileInfo.volume ≠ bucket || fileInfo.name ≠ name then (none, unverified + 1)
              else (some ⟨name, versionId, kind⟩, unverified)
            match version.intoFileinfo env bucket name true with
            | .ok fileInfo => named fileInfo 0
            | .error _ =>
              if versionId.isNone && kind = .unversionedObject then
                match version.intoFileinfo env bucket name false with
                | .ok fileInfo => named fileInfo 1
                | .error _ => (none, 1)
              else (none, 1)

namespace MetaCacheHealDiscovery

/-- A candidate that the main list has no room for. -/
def truncate (key : HealKey) (discovery : MetaCacheHealDiscovery) : MetaCacheHealDiscovery :=
  let objects :=
    if discovery.truncatedObjects.length < maxMetaCacheHealTruncatedObjects &&
        !discovery.truncatedObjects.contains key.object then
      discovery.truncatedObjects ++ [key.object]
    else discovery.truncatedObjects
  { discovery with
    truncated := true
    truncatedObjects := objects
    truncatedCandidates :=
      if objects.contains key.object then discovery.truncatedCandidates ++ [⟨key, 1⟩]
      else discovery.truncatedCandidates }

/-- A validated version of the entry whose keys so far are `entrySeen`. The map `seen` of the
source has the place of every candidate. -/
def count (limit : Nat) (key : HealKey) (discovery : MetaCacheHealDiscovery)
    (entrySeen : List HealKey) : MetaCacheHealDiscovery × List HealKey :=
  if key ∈ entrySeen then (discovery, entrySeen)
  else
    match discovery.candidates.findIdx? fun candidate => candidate.toHealKey = key with
    | some index =>
      ({ discovery with
          candidates := discovery.candidates.modify index fun candidate =>
            { candidate with replicaCount := candidate.replicaCount + 1 } }, key :: entrySeen)
    | none =>
      if limit ≤ discovery.candidates.length then (discovery.truncate key, entrySeen)
      else
        ({ discovery with candidates := discovery.candidates ++ [⟨key, 1⟩] }, key :: entrySeen)

def countVersion (env : Runtime) (bucket name : String) (limit : Nat)
    (state : MetaCacheHealDiscovery × List HealKey) (shallow : FileMetaShallowVersion) :
    MetaCacheHealDiscovery × List HealKey :=
  let (key, unverified) := readHealVersion env bucket name shallow
  let discovery := { state.1 with unverifiedCount := state.1.unverifiedCount + unverified }
  match key with
  | none => (discovery, state.2)
  | some key => discovery.count limit key state.2

def countEntry (hash : Hash) (env : Runtime) (bucket : String) (limit : Nat)
    (discovery : MetaCacheHealDiscovery) (entry : MetaCacheEntry) : MetaCacheHealDiscovery :=
  if !validHealCandidateName bucket entry then discovery
  else
    match FileMeta.load hash entry.metadata with
    | .error _ => { discovery with unverifiedCount := discovery.unverifiedCount + 1 }
    | .ok xl => (xl.versions.foldl (countVersion env bucket entry.name limit) (discovery, [])).1

end MetaCacheHealDiscovery

def discoverHealCandidates (hash : Hash) (env : Runtime) (entries : List (Option MetaCacheEntry))
    (bucket : String) (maxCandidates : Nat) : MetaCacheHealDiscovery :=
  let limit := min maxCandidates maxMetaCacheHealCandidates
  if limit = 0 || bucket.isEmpty then .default
  else
    (entries.filterMap id).foldl (MetaCacheHealDiscovery.countEntry hash env bucket limit) .default

/-- The validated versions of an entry, in the order they are read. -/
def carriedKeys (hash : Hash) (env : Runtime) (bucket : String) (entry : MetaCacheEntry) :
    List HealKey :=
  if !validHealCandidateName bucket entry then []
  else
    match FileMeta.load hash entry.metadata with
    | .error _ => []
    | .ok xl => xl.versions.filterMap fun shallow => (readHealVersion env bucket entry.name shallow).1

/-- The first keys that are read, without repetitions. -/
def firstKeys (limit : Nat) (keys : List HealKey) : List HealKey := keys.eraseDups.take limit

def carriers (key : HealKey) (entries : List (List HealKey)) : Nat :=
  entries.countP fun keys => decide (key ∈ keys)

section Keys

variable {limit : Nat} {keys : List HealKey} {key : HealKey}

theorem erase_dups_concat :
    (keys ++ [key]).eraseDups = if key ∈ keys then keys.eraseDups else keys.eraseDups ++ [key] := by
  rw [eraseDups_append, List.removeAll]
  by_cases member : key ∈ keys
  · simp [member]
  · simp [member, eraseDups_cons]

theorem first_keys_subset : firstKeys limit keys ⊆ keys := by
  intro key member
  exact mem_eraseDups.1 (mem_of_mem_take member)

theorem mem_first_keys_of_short (short : (firstKeys limit keys).length < limit)
    (member : key ∈ keys) : key ∈ firstKeys limit keys := by
  unfold firstKeys at short ⊢
  rw [length_take] at short
  rw [take_of_length_le (by omega)]
  exact mem_eraseDups.2 member

theorem erase_dups_nodup (keys : List HealKey) : keys.eraseDups.Nodup := by
  induction keys using List.reverseRecOn with
  | nil => exact nodup_nil
  | append_singleton keys key ih =>
    rw [erase_dups_concat]
    split
    · exact ih
    · rename_i fresh
      apply (perm_append_singleton key keys.eraseDups).nodup_iff.2
      exact nodup_cons.2 ⟨fun member => fresh (mem_eraseDups.1 member), ih⟩

theorem first_keys_nodup : (firstKeys limit keys).Nodup :=
  (erase_dups_nodup keys).sublist (take_sublist _ _)

theorem first_keys_length : (firstKeys limit keys).length ≤ limit := by
  unfold firstKeys
  rw [length_take]
  exact Nat.min_le_left _ _

theorem first_keys_known (known : key ∈ firstKeys limit keys ∨ limit ≤ (firstKeys limit keys).length) :
    firstKeys limit (keys ++ [key]) = firstKeys limit keys := by
  unfold firstKeys at known ⊢
  rw [erase_dups_concat]
  split
  · rfl
  · rename_i fresh
    rcases known with member | full
    · exact absurd (mem_eraseDups.1 (mem_of_mem_take member)) fresh
    · rw [length_take] at full
      rw [take_append_of_le_length (by omega)]

theorem first_keys_fresh (fresh : key ∉ firstKeys limit keys)
    (short : (firstKeys limit keys).length < limit) :
    firstKeys limit (keys ++ [key]) = firstKeys limit keys ++ [key] := by
  have unread : key ∉ keys := fun member => fresh (mem_first_keys_of_short short member)
  unfold firstKeys at short ⊢
  rw [length_take] at short
  rw [erase_dups_concat, if_neg unread, take_of_length_le (by simp; omega),
    take_of_length_le (by omega)]

end Keys

/-- The candidate of a key, counted once more. -/
def bump (key : HealKey) (candidate : MetaCacheHealCandidate) : MetaCacheHealCandidate :=
  if candidate.toHealKey = key then { candidate with replicaCount := candidate.replicaCount + 1 }
  else candidate

theorem bump_key (key : HealKey) (candidate : MetaCacheHealCandidate) :
    (bump key candidate).toHealKey = candidate.toHealKey := by
  unfold bump
  split
  all_goals rfl

variable {key : HealKey} {candidates : List MetaCacheHealCandidate}

theorem modify_found {index : Nat}
    (distinct : (candidates.map MetaCacheHealCandidate.toHealKey).Nodup)
    (found : (candidates.findIdx? fun candidate => candidate.toHealKey = key) = some index) :
    candidates.modify index (fun candidate =>
      { candidate with replicaCount := candidate.replicaCount + 1 }) = candidates.map (bump key) := by
  induction candidates generalizing index with
  | nil => cases found
  | cons candidate candidates ih =>
    rw [map_cons, nodup_cons] at distinct
    rw [findIdx?_cons] at found
    by_cases here : candidate.toHealKey = key
    · rw [if_pos (decide_eq_true here)] at found
      cases found
      have others : candidates.map (bump key) = candidates := by
        rw [map_congr_left fun other member => ?_, map_id']
        unfold bump
        rw [if_neg]
        intro same
        exact distinct.1 (mem_map.2 ⟨other, member, same.trans here.symm⟩)
      rw [modify_zero_cons, map_cons, others]
      unfold bump
      rw [if_pos here]
    · rw [if_neg (by simpa using here)] at found
      obtain ⟨place, isPlace, rfl⟩ := Option.map_eq_some_iff.1 found
      rw [modify_succ_cons, ih distinct.2 isPlace, map_cons]
      unfold bump
      rw [if_neg here]

/-- The state after the entries `done` and the keys `front` of the next one. -/
structure Tallied (limit : Nat) (names : List String) (done : List (List HealKey))
    (front : List HealKey) (discovery : MetaCacheHealDiscovery) (entrySeen : List HealKey) : Prop where
  first : discovery.candidates.map MetaCacheHealCandidate.toHealKey =
    firstKeys limit (done.flatten ++ front)
  counts : ∀ candidate ∈ discovery.candidates, candidate.replicaCount =
    carriers candidate.toHealKey done + if candidate.toHealKey ∈ front then 1 else 0
  seen : ∀ key, key ∈ entrySeen ↔ key ∈ front ∧ key ∈ firstKeys limit (done.flatten ++ front)
  rest : discovery.truncatedCandidates =
    ((done.flatten ++ front).filter fun key =>
      decide (key ∉ firstKeys limit (done.flatten ++ front))).map (⟨·, 1⟩)
  flag : discovery.truncated = true ↔ discovery.truncatedCandidates ≠ []
  objects : discovery.truncatedObjects.Nodup ∧ discovery.truncatedObjects ⊆ names

section Tally

variable {limit : Nat} {names : List String} {done : List (List HealKey)} {front : List HealKey}
  {discovery : MetaCacheHealDiscovery} {entrySeen : List HealKey} {key : HealKey}

theorem truncate_eq (tallied : Tallied limit names done front discovery entrySeen)
    (few : names.length ≤ maxMetaCacheHealTruncatedObjects) (named : key.object ∈ names) :
    (discovery.truncate key).truncatedCandidates = discovery.truncatedCandidates ++ [⟨key, 1⟩] ∧
      (discovery.truncate key).truncatedObjects.Nodup ∧
      (discovery.truncate key).truncatedObjects ⊆ names := by
  obtain ⟨distinct, inside⟩ := tallied.objects
  unfold MetaCacheHealDiscovery.truncate
  by_cases present : key.object ∈ discovery.truncatedObjects
  · have contained : discovery.truncatedObjects.contains key.object = true :=
      contains_iff_mem.2 present
    simp only [contained, Bool.not_true, Bool.and_false, Bool.false_eq_true, if_false, if_true]
    exact ⟨trivial, distinct, inside⟩
  · have larger : (key.object :: discovery.truncatedObjects).Nodup := nodup_cons.2 ⟨present, distinct⟩
    have within : key.object :: discovery.truncatedObjects ⊆ names :=
      cons_subset.2 ⟨named, inside⟩
    have room : discovery.truncatedObjects.length < maxMetaCacheHealTruncatedObjects := by
      have bound := (larger.subperm within).length_le
      rw [length_cons] at bound
      omega
    have absent : discovery.truncatedObjects.contains key.object = false := by
      rw [Bool.eq_false_iff]
      exact fun contained => present (contains_iff_mem.1 contained)
    simp only [absent, room, decide_true, Bool.not_false, Bool.and_true, if_true]
    have added : (discovery.truncatedObjects ++ [key.object]).contains key.object = true := by
      rw [contains_iff_mem]
      exact mem_append_right _ (mem_singleton.2 rfl)
    rw [if_pos added]
    refine ⟨rfl, ?_, ?_⟩
    · exact (perm_append_singleton _ _).nodup_iff.2 larger
    · exact append_subset.2 ⟨inside, cons_subset.2 ⟨named, nil_subset _⟩⟩

theorem first_keys_stay (known : key ∈ firstKeys limit (done.flatten ++ front) ∨
      limit ≤ (firstKeys limit (done.flatten ++ front)).length) :
    firstKeys limit (done.flatten ++ (front ++ [key])) = firstKeys limit (done.flatten ++ front) := by
  rw [← append_assoc]
  exact first_keys_known known

theorem rest_concat {firsts : List HealKey} :
    ((done.flatten ++ (front ++ [key])).filter fun other => decide (other ∉ firsts)) =
      ((done.flatten ++ front).filter fun other => decide (other ∉ firsts)) ++
        if key ∈ firsts then [] else [key] := by
  by_cases isFirst : key ∈ firsts
  all_goals simp [isFirst]

section

variable (tallied : Tallied limit names done front discovery entrySeen)

include tallied

theorem tallied_again (isSeen : key ∈ entrySeen) :
    Tallied limit names done (front ++ [key]) discovery entrySeen := by
  obtain ⟨inFront, isFirst⟩ := (tallied.seen key).1 isSeen
  have stay := @first_keys_stay limit done front key (.inl isFirst)
  have mem : ∀ other, other ∈ front ++ [key] ↔ other ∈ front := by
    intro other
    rw [mem_append, mem_singleton]
    exact ⟨fun either => either.elim id fun same => same ▸ inFront, .inl⟩
  exact
    { first := tallied.first.trans stay.symm
      counts := fun candidate member => by
        rw [tallied.counts candidate member]
        simp only [mem]
      seen := fun other => by rw [stay, mem, tallied.seen]
      rest := by rw [stay, rest_concat, if_pos isFirst, append_nil, tallied.rest]
      flag := tallied.flag
      objects := tallied.objects }

theorem tallied_bumped
    (unseen : key ∉ entrySeen) (isFirst : key ∈ firstKeys limit (done.flatten ++ front)) :
    Tallied limit names done (front ++ [key])
      { discovery with candidates := discovery.candidates.map (bump key) } (key :: entrySeen) := by
  have stay := @first_keys_stay limit done front key (.inl isFirst)
  have notFront : key ∉ front := fun inFront => unseen ((tallied.seen key).2 ⟨inFront, isFirst⟩)
  exact
    { first := by
        rw [stay, ← tallied.first, map_map]
        exact map_congr_left fun candidate _ => bump_key key candidate
      counts := by
        intro candidate member
        obtain ⟨before, isBefore, rfl⟩ := mem_map.1 member
        have old := tallied.counts before isBefore
        unfold bump
        by_cases same : before.toHealKey = key
        · rw [same, if_neg notFront] at old
          rw [if_pos same, same, if_pos (mem_append_right _ (mem_singleton.2 rfl))]
          dsimp only
          omega
        · have mem : before.toHealKey ∈ front ++ [key] ↔ before.toHealKey ∈ front := by
            rw [mem_append, mem_singleton]
            exact ⟨fun either => either.resolve_right same, .inl⟩
          rw [if_neg same, old]
          simp only [mem]
      seen := by
        intro other
        rw [stay, mem_cons, tallied.seen, mem_append, mem_singleton]
        constructor
        · rintro (rfl | ⟨inFront, first⟩)
          · exact ⟨.inr rfl, isFirst⟩
          · exact ⟨.inl inFront, first⟩
        · rintro ⟨inFront | rfl, first⟩
          · exact .inr ⟨inFront, first⟩
          · exact .inl rfl
      rest := by rw [stay, rest_concat, if_pos isFirst, append_nil, tallied.rest]
      flag := tallied.flag
      objects := tallied.objects }

theorem tallied_truncated
    (few : names.length ≤ maxMetaCacheHealTruncatedObjects) (named : key.object ∈ names)
    (notFirst : key ∉ firstKeys limit (done.flatten ++ front))
    (full : limit ≤ (firstKeys limit (done.flatten ++ front)).length) :
    Tallied limit names done (front ++ [key]) (discovery.truncate key) entrySeen := by
  have stay := @first_keys_stay limit done front key (.inr full)
  obtain ⟨pushed, objects⟩ := truncate_eq tallied few named
  exact
    { first := tallied.first.trans stay.symm
      counts := by
        intro candidate member
        have isFirst : candidate.toHealKey ∈ firstKeys limit (done.flatten ++ front) := by
          rw [← tallied.first]
          exact mem_map_of_mem member
        have mem : candidate.toHealKey ∈ front ++ [key] ↔ candidate.toHealKey ∈ front := by
          rw [mem_append, mem_singleton]
          refine ⟨fun either => either.resolve_right fun same => ?_, .inl⟩
          rw [same] at isFirst
          exact notFirst isFirst
        rw [tallied.counts candidate member]
        simp only [mem]
      seen := by
        intro other
        rw [stay, tallied.seen, mem_append, mem_singleton]
        constructor
        · exact fun both => ⟨.inl both.1, both.2⟩
        · rintro ⟨inFront | rfl, first⟩
          · exact ⟨inFront, first⟩
          · exact absurd first notFirst
      rest := by
        rw [stay, rest_concat, if_neg notFirst, map_append, ← tallied.rest, pushed]
        rfl
      flag := by
        rw [pushed]
        exact ⟨fun _ => by simp, fun _ => rfl⟩
      objects := objects }

theorem tallied_added (notFirst : key ∉ firstKeys limit (done.flatten ++ front))
    (short : (firstKeys limit (done.flatten ++ front)).length < limit) :
    Tallied limit names done (front ++ [key])
      { discovery with candidates := discovery.candidates ++ [⟨key, 1⟩] } (key :: entrySeen) := by
  have grown : firstKeys limit (done.flatten ++ (front ++ [key])) =
      firstKeys limit (done.flatten ++ front) ++ [key] := by
    rw [← append_assoc]
    exact first_keys_fresh notFirst short
  have unread : key ∉ done.flatten ++ front := fun member =>
    notFirst (mem_first_keys_of_short short member)
  have allFirst : ∀ other ∈ done.flatten ++ front, other ∈ firstKeys limit (done.flatten ++ front) :=
    fun other member => mem_first_keys_of_short short member
  have nothing : discovery.truncatedCandidates = [] := by
    rw [tallied.rest, map_eq_nil_iff, filter_eq_nil_iff]
    intro other member
    simp [allFirst other member]
  exact
    { first := by
        rw [grown, map_append, tallied.first]
        rfl
      counts := by
        intro candidate member
        rcases mem_append.1 member with old | new
        · have isRead : candidate.toHealKey ∈ done.flatten ++ front := by
            apply @first_keys_subset limit
            rw [← tallied.first]
            exact mem_map_of_mem old
          have other : candidate.toHealKey ≠ key := fun same => unread (same ▸ isRead)
          have mem : candidate.toHealKey ∈ front ++ [key] ↔ candidate.toHealKey ∈ front := by
            rw [mem_append, mem_singleton]
            exact ⟨fun either => either.resolve_right other, .inl⟩
          rw [tallied.counts candidate old]
          simp only [mem]
        · rw [mem_singleton.1 new, if_pos (mem_append_right _ (mem_singleton.2 rfl))]
          have uncarried : carriers key done = 0 := by
            unfold carriers
            rw [countP_eq_zero]
            intro keys isDone carried
            have inside : key ∈ done.flatten := mem_flatten.2 ⟨keys, isDone, of_decide_eq_true carried⟩
            exact unread (mem_append_left _ inside)
          rw [uncarried]
      seen := by
        intro other
        rw [grown, mem_cons, tallied.seen, mem_append, mem_append, mem_singleton]
        constructor
        · rintro (rfl | ⟨inFront, first⟩)
          · exact ⟨.inr rfl, .inr rfl⟩
          · exact ⟨.inl inFront, .inl first⟩
        · rintro ⟨inFront | rfl, _⟩
          · exact .inr ⟨inFront, allFirst other (mem_append_right _ inFront)⟩
          · exact .inl rfl
      rest := by
        symm
        rw [nothing, grown, map_eq_nil_iff, filter_eq_nil_iff]
        intro other member
        rw [← append_assoc, mem_append] at member
        have isFirst : other ∈ firstKeys limit (done.flatten ++ front) ++ [key] :=
          mem_append.2 (member.imp_left (allFirst other))
        simp [isFirst]
      flag := tallied.flag
      objects := tallied.objects }

theorem tallied_count
    (few : names.length ≤ maxMetaCacheHealTruncatedObjects) (named : key.object ∈ names) :
    Tallied limit names done (front ++ [key]) (discovery.count limit key entrySeen).1
      (discovery.count limit key entrySeen).2 := by
  have distinct : (discovery.candidates.map MetaCacheHealCandidate.toHealKey).Nodup := by
    rw [tallied.first]
    exact first_keys_nodup
  have lengths := congrArg List.length tallied.first
  rw [length_map] at lengths
  unfold MetaCacheHealDiscovery.count
  split
  · rename_i isSeen
    exact tallied_again tallied isSeen
  rename_i unseen
  split
  · rename_i index found
    have isFirst : key ∈ firstKeys limit (done.flatten ++ front) := by
      obtain ⟨inside, same, _⟩ := findIdx?_eq_some_iff_getElem.1 found
      rw [← tallied.first]
      exact mem_map.2 ⟨_, getElem_mem inside, of_decide_eq_true same⟩
    rw [modify_found distinct found]
    exact tallied_bumped tallied unseen isFirst
  · rename_i missing
    have notFirst : key ∉ firstKeys limit (done.flatten ++ front) := by
      rw [← tallied.first]
      intro member
      obtain ⟨candidate, isCandidate, same⟩ := mem_map.1 member
      have apart := findIdx?_eq_none_iff.1 missing candidate isCandidate
      simp [same] at apart
    split
    · rename_i full
      exact tallied_truncated tallied few named notFirst (lengths ▸ full)
    · rename_i short
      exact tallied_added tallied notFirst (lengths ▸ Nat.lt_of_not_le short)

end

theorem tallied_start : Tallied limit names [] [] .default [] :=
  { first := by simp [firstKeys, MetaCacheHealDiscovery.default]
    counts := fun _ member => nomatch member
    seen := fun key => by simp
    rest := rfl
    flag := by simp [MetaCacheHealDiscovery.default]
    objects := ⟨nodup_nil, nil_subset _⟩ }

theorem tallied_next (tallied : Tallied limit names done front discovery entrySeen) :
    Tallied limit names (done ++ [front]) [] discovery [] := by
  have same : (done ++ [front]).flatten ++ [] = done.flatten ++ front := by simp
  exact
    { first := same ▸ tallied.first
      counts := by
        intro candidate member
        rw [tallied.counts candidate member]
        unfold carriers
        simp
      seen := fun key => by simp
      rest := same ▸ tallied.rest
      flag := tallied.flag
      objects := tallied.objects }

theorem tallied_unverified (unverified : Nat)
    (tallied : Tallied limit names done front discovery entrySeen) :
    Tallied limit names done front { discovery with unverifiedCount := unverified } entrySeen :=
  { tallied with }

end Tally

section Runs

variable {hash : Hash} {env : Runtime} {bucket : String} {limit : Nat} {names : List String}
  {done : List (List HealKey)}

section

variable (few : names.length ≤ maxMetaCacheHealTruncatedObjects) {name : String}

include few

theorem tallied_version {front : List HealKey} {shallow : FileMetaShallowVersion}
    {state : MetaCacheHealDiscovery × List HealKey}
    (named : ∀ key ∈ (readHealVersion env bucket name shallow).1, key.object ∈ names)
    (tallied : Tallied limit names done front state.1 state.2) :
    let reached := MetaCacheHealDiscovery.countVersion env bucket name limit state shallow
    Tallied limit names done (front ++ (readHealVersion env bucket name shallow).1.toList)
      reached.1 reached.2 := by
  unfold MetaCacheHealDiscovery.countVersion
  generalize readHealVersion env bucket name shallow = outcome at named ⊢
  obtain ⟨found, unverified⟩ := outcome
  have counted := tallied_unverified (state.1.unverifiedCount + unverified) tallied
  cases found with
  | none =>
    rw [Option.toList_none, append_nil]
    exact counted
  | some key => exact tallied_count counted few (named key rfl)

theorem tallied_versions (versions : List FileMetaShallowVersion)
    (named : ∀ key ∈ versions.filterMap fun shallow => (readHealVersion env bucket name shallow).1,
      key.object ∈ names) (front : List HealKey) (state : MetaCacheHealDiscovery × List HealKey)
    (tallied : Tallied limit names done front state.1 state.2) :
    let reached := versions.foldl (MetaCacheHealDiscovery.countVersion env bucket name limit) state
    Tallied limit names done
      (front ++ versions.filterMap fun shallow => (readHealVersion env bucket name shallow).1)
      reached.1 reached.2 := by
  induction versions generalizing front state with
  | nil => simpa using tallied
  | cons shallow versions ih =>
    have split : (shallow :: versions).filterMap
        (fun shallow => (readHealVersion env bucket name shallow).1) =
        (readHealVersion env bucket name shallow).1.toList ++
          versions.filterMap fun shallow => (readHealVersion env bucket name shallow).1 := by
      rw [filterMap_cons]
      cases (readHealVersion env bucket name shallow).1 with
      | none => rfl
      | some key => rfl
    rw [split] at named ⊢
    have one := tallied_version few
      (fun key member => named key (mem_append_left _ (Option.mem_toList.2 member))) tallied
    have rest := ih (fun key member => named key (mem_append_right _ member)) _ _ one
    rw [append_assoc] at rest
    exact rest

theorem tallied_entry {entry : MetaCacheEntry} {discovery : MetaCacheHealDiscovery}
    (named : ∀ key ∈ carriedKeys hash env bucket entry, key.object ∈ names)
    (tallied : Tallied limit names done [] discovery []) :
    Tallied limit names (done ++ [carriedKeys hash env bucket entry]) []
      (discovery.countEntry hash env bucket limit entry) [] := by
  unfold carriedKeys at named ⊢
  unfold MetaCacheHealDiscovery.countEntry
  by_cases valid : validHealCandidateName bucket entry = true
  · rw [valid, Bool.not_true, if_neg (by simp)] at named ⊢
    rw [if_neg (by simp)]
    cases loaded : FileMeta.load hash entry.metadata with
    | error _ => exact tallied_next (tallied_unverified _ tallied)
    | ok xl =>
      rw [loaded] at named
      exact tallied_next (tallied_versions few xl.versions named [] (discovery, []) tallied)
  · rw [Bool.not_eq_true] at valid
    rw [valid, Bool.not_false, if_pos rfl, if_pos rfl]
    exact tallied_next tallied

theorem tallied_entries (entries : List MetaCacheEntry)
    (named : ∀ entry ∈ entries, ∀ key ∈ carriedKeys hash env bucket entry, key.object ∈ names)
    (discovery : MetaCacheHealDiscovery) (tallied : Tallied limit names done [] discovery []) :
    Tallied limit names (done ++ entries.map (carriedKeys hash env bucket)) []
      (entries.foldl (MetaCacheHealDiscovery.countEntry hash env bucket limit) discovery) [] := by
  induction entries generalizing done discovery with
  | nil => simpa using tallied
  | cons entry entries ih =>
    have one := tallied_entry few (named entry mem_cons_self) tallied
    have rest := ih (fun other member => named other (mem_cons_of_mem _ member)) _ one
    rw [append_assoc] at rest
    exact rest

end

end Runs

/-- Every key that an entry carries has one candidate, with the number of entries. -/
structure ReplicasCounted (limit : Nat) (carried : List (List HealKey))
    (discovery : MetaCacheHealDiscovery) : Prop where
  once : ∀ key ∈ carried.flatten,
    ((discovery.candidates ++ discovery.truncatedCandidates).filter fun candidate =>
      decide (candidate.toHealKey = key)) = [⟨key, carriers key carried⟩]
  bounded : discovery.candidates.length ≤ limit
  flag : discovery.truncated = true ↔ discovery.truncatedCandidates ≠ []

theorem filter_key {candidate : MetaCacheHealCandidate}
    (distinct : (candidates.map MetaCacheHealCandidate.toHealKey).Nodup)
    (member : candidate ∈ candidates) :
    (candidates.filter fun other => decide (other.toHealKey = candidate.toHealKey)) = [candidate] := by
  induction candidates with
  | nil => cases member
  | cons head candidates ih =>
    rw [map_cons, nodup_cons] at distinct
    rcases mem_cons.1 member with rfl | inside
    · have others : (candidates.filter fun other =>
          decide (other.toHealKey = candidate.toHealKey)) = [] := by
        rw [filter_eq_nil_iff]
        intro other isOther same
        exact distinct.1 (mem_map.2 ⟨other, isOther, of_decide_eq_true same⟩)
      rw [filter_cons_of_pos (by simp), others]
    · have apart : head.toHealKey ≠ candidate.toHealKey := fun same =>
        distinct.1 (mem_map.2 ⟨candidate, inside, same.symm⟩)
      rw [filter_cons_of_neg (by simpa using apart)]
      exact ih distinct.2 inside

theorem filter_rest {firsts keys : List HealKey} (notFirst : key ∉ firsts) :
    (((keys.filter fun other => decide (other ∉ firsts)).map
      fun other => (⟨other, 1⟩ : MetaCacheHealCandidate)).filter
        fun candidate => decide (candidate.toHealKey = key)) =
      List.replicate (keys.count key) ⟨key, 1⟩ := by
  have both : (fun other => decide (other = key) && decide (other ∉ firsts)) =
      fun other => decide (other = key) := by
    funext other
    by_cases same : other = key
    · simp [same, notFirst]
    · simp [same]
  rw [filter_map, filter_filter]
  change (List.filter (fun other => decide (other = key) && decide (other ∉ firsts)) keys).map _ = _
  rw [both, filter_eq, map_replicate]

theorem carriers_le_count (key : HealKey) (carried : List (List HealKey)) :
    carriers key carried ≤ carried.flatten.count key := by
  unfold carriers
  induction carried with
  | nil => exact Nat.le_refl 0
  | cons keys carried ih =>
    rw [countP_cons, flatten_cons, List.count_append]
    by_cases member : key ∈ keys
    · have atLeast := count_pos_iff.2 member
      simp only [member, decide_true, if_true]
      omega
    · simp only [member, decide_false, Bool.false_eq_true, if_false]
      omega

theorem carriers_pos {carried : List (List HealKey)}
    (member : key ∈ carried.flatten) : 0 < carriers key carried := by
  obtain ⟨keys, isEntry, inside⟩ := mem_flatten.1 member
  exact countP_pos_iff.2 ⟨keys, isEntry, decide_eq_true inside⟩

section Counted

variable {limit : Nat} {names : List String} {carried : List (List HealKey)}
  {discovery : MetaCacheHealDiscovery} {key : HealKey}

theorem first_counted (tallied : Tallied limit names carried [] discovery [])
    (isFirst : key ∈ firstKeys limit carried.flatten) :
    ((discovery.candidates ++ discovery.truncatedCandidates).filter fun candidate =>
      decide (candidate.toHealKey = key)) = [⟨key, carriers key carried⟩] := by
  obtain ⟨first, counts, _, rest, _, _⟩ := tallied
  rw [append_nil] at first rest
  have isCandidate := isFirst
  rw [← first] at isCandidate
  obtain ⟨candidate, member, rfl⟩ := mem_map.1 isCandidate
  have alone := filter_key (first ▸ first_keys_nodup) member
  have noRest : (discovery.truncatedCandidates.filter fun other =>
      decide (other.toHealKey = candidate.toHealKey)) = [] := by
    rw [rest, filter_eq_nil_iff]
    intro other isOther same
    obtain ⟨unplaced, isUnplaced, rfl⟩ := mem_map.1 isOther
    have isSame : unplaced = candidate.toHealKey := of_decide_eq_true same
    have notFirst := of_decide_eq_true (mem_filter.1 isUnplaced).2
    exact notFirst (isSame ▸ isFirst)
  have count := counts candidate member
  rw [if_neg not_mem_nil, Nat.add_zero] at count
  rw [filter_append, alone, noRest, ← count]
  rfl

theorem rest_counted (tallied : Tallied limit names carried [] discovery [])
    (notFirst : key ∉ firstKeys limit carried.flatten) :
    ((discovery.candidates ++ discovery.truncatedCandidates).filter fun candidate =>
      decide (candidate.toHealKey = key)) = List.replicate (carried.flatten.count key) ⟨key, 1⟩ := by
  obtain ⟨first, _, _, rest, _, _⟩ := tallied
  rw [append_nil] at first rest
  have noFirst : (discovery.candidates.filter fun candidate =>
      decide (candidate.toHealKey = key)) = [] := by
    rw [filter_eq_nil_iff]
    intro candidate member same
    rw [← first] at notFirst
    exact notFirst (mem_map.2 ⟨candidate, member, of_decide_eq_true same⟩)
  rw [filter_append, noFirst, rest, nil_append, filter_rest notFirst]

theorem replicas_counted_iff (tallied : Tallied limit names carried [] discovery []) :
    ReplicasCounted limit carried discovery ↔
      ∀ key ∈ carried.flatten,
        key ∈ firstKeys limit carried.flatten ∨ carried.flatten.count key = 1 := by
  constructor
  · intro counted key member
    by_cases isFirst : key ∈ firstKeys limit carried.flatten
    · exact .inl isFirst
    · have lengths := congrArg List.length (counted.once key member)
      rw [rest_counted tallied isFirst, length_replicate] at lengths
      exact .inr lengths
  · intro placed
    refine { once := ?_, bounded := ?_, flag := tallied.flag }
    · intro key member
      by_cases isFirst : key ∈ firstKeys limit carried.flatten
      · exact first_counted tallied isFirst
      · have single := (placed key member).resolve_left isFirst
        have one : carriers key carried = 1 := by
          have atLeast := carriers_pos member
          have atMost := carriers_le_count key carried
          omega
        rw [rest_counted tallied isFirst, single, one]
        rfl
    · have lengths := congrArg List.length tallied.first
      rw [length_map] at lengths
      rw [lengths]
      exact first_keys_length

end Counted

theorem discover_heal_candidates_eq {hash : Hash} {env : Runtime}
    {entries : List (Option MetaCacheEntry)} {bucket : String} {maxCandidates : Nat}
    (on : 0 < min maxCandidates maxMetaCacheHealCandidates) :
    discoverHealCandidates hash env entries bucket maxCandidates =
      (entries.filterMap id).foldl (MetaCacheHealDiscovery.countEntry hash env bucket
        (min maxCandidates maxMetaCacheHealCandidates)) .default := by
  unfold discoverHealCandidates
  by_cases nameless : bucket.isEmpty = true
  · rw [if_pos (Bool.or_eq_true_iff.2 (.inr nameless))]
    have skipped : ∀ discovery entry, MetaCacheHealDiscovery.countEntry hash env bucket
        (min maxCandidates maxMetaCacheHealCandidates) discovery entry = discovery := by
      intro discovery entry
      unfold MetaCacheHealDiscovery.countEntry validHealCandidateName
      rw [nameless]
      simp only [Bool.not_true, Bool.false_and, Bool.not_false, if_true]
    generalize entries.filterMap id = read
    induction read with
    | nil => rfl
    | cons entry read ih => rw [foldl_cons, skipped, ← ih]
  · rw [if_neg]
    rw [Bool.or_eq_true_iff, decide_eq_true_iff]
    rintro (off | named)
    · omega
    · exact nameless named

/-- Replicas are counted exactly when every version that does not fit into the main list is
carried by one entry, once. The second list has a cap of its own, which is not reached here. -/
theorem discover_heal_candidates_counted (hash : Hash) (env : Runtime)
    (entries : List (Option MetaCacheEntry)) (bucket : String) (maxCandidates : Nat)
    (few : ((((entries.filterMap id).map (carriedKeys hash env bucket)).flatten.map
      HealKey.object).eraseDups).length ≤ maxMetaCacheHealTruncatedObjects) :
    let limit := min maxCandidates maxMetaCacheHealCandidates
    let carried := (entries.filterMap id).map (carriedKeys hash env bucket)
    ReplicasCounted limit carried (discoverHealCandidates hash env entries bucket maxCandidates) ↔
      ∀ key ∈ carried.flatten, key ∈ firstKeys limit carried.flatten ∨
        0 < limit ∧ carried.flatten.count key = 1 := by
  intro limit carried
  have named : ∀ entry ∈ entries.filterMap id, ∀ key ∈ carriedKeys hash env bucket entry,
      key.object ∈ (carried.flatten.map HealKey.object).eraseDups := by
    intro entry isEntry key member
    have inside : key ∈ carried.flatten :=
      mem_flatten.2 ⟨_, mem_map_of_mem isEntry, member⟩
    exact mem_eraseDups.2 (mem_map_of_mem inside)
  rcases Nat.eq_zero_or_pos limit with off | on
  · have nothing : discoverHealCandidates hash env entries bucket maxCandidates = .default := by
      unfold discoverHealCandidates
      rw [if_pos (Bool.or_eq_true_iff.2 (.inl (decide_eq_true off)))]
    rw [nothing]
    constructor
    · intro counted key member
      cases counted.once key member
    · intro placed
      have unread : ∀ key, key ∉ carried.flatten := by
        intro key member
        rcases placed key member with isFirst | ⟨positive, _⟩
        · rw [off] at isFirst
          cases isFirst
        · omega
      exact
        { once := fun key member => absurd member (unread key)
          bounded := Nat.zero_le _
          flag := (@tallied_start 0 []).flag }
  · have run := tallied_entries few _ named .default (@tallied_start limit _)
    rw [nil_append] at run
    have counted := replicas_counted_iff run
    rw [← discover_heal_candidates_eq on] at counted
    simp only [on, true_and]
    exact counted

def markerVersion (id : Uuid) : FileMetaVersion :=
  { FileMetaVersion.default with
    versionType := .delete
    deleteMarker := some ⟨some id, some ⟨1700000000000000000, OffsetDateTime.sample_in_range⟩, .empty⟩ }

/-- A drive that carries two delete markers of one object. -/
def markedEntry : MetaCacheEntry where
  name := "object"
  metadata := FileMeta.marshalMsg (Library.XxHash.xxh64 0)
    { versions := [(markerVersion 6).toShallow .sample, (markerVersion 5).toShallow .sample]
      data := []
      metaVer := 3 }
  cached := none
  reusable := false

def markerKey (id : Uuid) : HealKey := ⟨"object", some id, .deleteMarker⟩

theorem marked_entry_keys : carriedKeys (Library.XxHash.xxh64 0) .sample "bucket" markedEntry =
    [markerKey 6, markerKey 5] := by decide +kernel

/-- With room for one candidate, the other marker is listed once for each drive. -/
theorem replicas_miscounted :
    ¬ ∀ (hash : Hash) (env : Runtime) (entries : List (Option MetaCacheEntry)) (bucket : String)
      (maxCandidates : Nat),
      let carried := (entries.filterMap id).map (carriedKeys hash env bucket)
      ((carried.flatten.map HealKey.object).eraseDups).length ≤ maxMetaCacheHealTruncatedObjects →
        ReplicasCounted (min maxCandidates maxMetaCacheHealCandidates) carried
          (discoverHealCandidates hash env entries bucket maxCandidates) := by
  intro claim
  have found : (discoverHealCandidates (Library.XxHash.xxh64 0) .sample
      [some markedEntry, some markedEntry] "bucket" 1).candidates = [⟨markerKey 6, 2⟩] ∧
      (discoverHealCandidates (Library.XxHash.xxh64 0) .sample
        [some markedEntry, some markedEntry] "bucket" 1).truncatedCandidates =
          [⟨markerKey 5, 1⟩, ⟨markerKey 5, 1⟩] := by
    decide +kernel
  have counted := claim (Library.XxHash.xxh64 0) .sample [some markedEntry, some markedEntry] "bucket" 1
  simp only [filterMap_cons, filterMap_nil, id_eq, map_cons, map_nil, marked_entry_keys] at counted
  have once := (counted (by decide)).once (markerKey 5) (by decide)
  rw [found.1, found.2] at once
  exact absurd once (by decide)

/-- With room for two, both markers are counted on both drives. -/
theorem replicas_counted_two : let keys := [markerKey 6, markerKey 5]
    carriedKeys (Library.XxHash.xxh64 0) .sample "bucket" markedEntry = keys ∧
    ReplicasCounted 2 [keys, keys] (discoverHealCandidates (Library.XxHash.xxh64 0) .sample
      [some markedEntry, none, some markedEntry] "bucket" 2) := by
  have iff := discover_heal_candidates_counted (Library.XxHash.xxh64 0) .sample
    [some markedEntry, none, some markedEntry] "bucket" 2
  simp only [filterMap_cons, filterMap_nil, id_eq, map_cons, map_nil, marked_entry_keys] at iff
  exact ⟨marked_entry_keys, (iff (by decide)).2 (by decide)⟩

end Rustfs.Filemeta
