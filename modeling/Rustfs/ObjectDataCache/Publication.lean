import Rustfs.ObjectDataCache.Steps
import Rustfs.Library.Lists

/-!
# Every cached entry is accounted for

A cached entry belongs to one fill. It is registered under the generation of
that fill, or else some task still has it in hand: its own fill, which has not
confirmed it; a fill that evicts it from the identity budget or refills its key;
an invalidation that has taken its key off the index; or a clear.
-/

namespace Rustfs.ObjectDataCache

open List StarshardIdentityIndex Position
open Library (run)
open Library.Lists (found_set found_append)

variable {number other : Nat}

/-- Generations are given out once each. -/
structure Numbered (nextGeneration : Nat) (fills : List Fill) : Prop where
  allotted : ∀ fill ∈ fills, fill.generation ≤ nextGeneration
  given : ∀ fill ∈ fills, fill.position.numbered = true → fill.generation ≠ 0
  unique : ∀ {one two : Nat} {first second : Fill}, fills[one]? = some first →
    fills[two]? = some second → first.generation = second.generation →
      first.generation ≠ 0 → one = two

variable {backend : MokaBackend} {fill : Fill}

variable {before : Position}

theorem Moves.numbered {after : Position}
    (moves : Moves backend fill before after) (numbered : after.numbered = true) :
    before.numbered = true := by
  cases moves <;> first | rfl | cases numbered

variable {later : MokaBackend} {moved : Fill}

theorem FillStep.key (taken : FillStep backend fill later moved) : moved.key = fill.key := by
  cases taken <;> rfl

theorem FillStep.generation (taken : FillStep backend fill later moved) :
    (later.nextGeneration = backend.nextGeneration ∧ moved.generation = fill.generation ∧
        (moved.position.numbered = true → fill.position.numbered = true)) ∨
      (later.nextGeneration = backend.nextGeneration + 1 ∧
        moved.generation = backend.nextGeneration + 1 ∧ fill.position.mayPut = true) := by
  cases taken with
  | move moves => exact .inl ⟨rfl, rfl, moves.numbered⟩
  | allocate stands => exact .inr ⟨rfl, rfl, by rw [stands]; rfl⟩
  | removeVictim stands =>
    refine .inl ⟨?_, rfl, fun _ => by rw [stands]; rfl⟩
    rw [MokaBackend.removeExpected]
    split <;> rfl
  | insert stands | put stands | undo stands => exact .inl ⟨rfl, rfl, fun _ => by rw [stands]; rfl⟩
  | register | turnAway | prune | withdraw | leave | dropGuard | cancel =>
    exact .inl ⟨rfl, rfl, fun numbered => by cases numbered⟩

namespace Numbered

variable {nextGeneration number : Nat} {fills : List Fill} {fill moved : Fill}

theorem numbered_new : Numbered 0 [] := ⟨by simp, by simp, by simp⟩

theorem lead (numbered : Numbered nextGeneration fills) (fresh : fill.generation = 0)
    (unnumbered : fill.position.numbered = false) : Numbered nextGeneration (fills ++ [fill]) := by
  have old : ∀ {place : Nat} {one : Fill}, (fills ++ [fill])[place]? = some one →
      one.generation ≠ 0 → fills[place]? = some one := by
    intro place one found positive
    by_cases within : place < fills.length
    · rwa [getElem?_append_left within] at found
    · rw [getElem?_append_right (Nat.le_of_not_lt within)] at found
      rw [mem_singleton.1 (mem_of_getElem? found)] at positive
      exact absurd fresh positive
  refine ⟨?_, ?_, ?_⟩
  · intro one member
    rcases mem_append.1 member with member | new
    · exact numbered.allotted one member
    · rw [mem_singleton.1 new, fresh]
      exact Nat.zero_le _
  · intro one member isNumbered
    rcases mem_append.1 member with member | new
    · exact numbered.given one member isNumbered
    · rw [mem_singleton.1 new, unnumbered] at isNumbered
      cases isNumbered
  · intro one two first second found sought same positive
    exact numbered.unique (old found positive) (old sought (same ▸ positive)) same positive

theorem set {later : Nat} (numbered : Numbered nextGeneration fills)
    (found : fills[number]? = some fill) (grows : nextGeneration ≤ later)
    (allotted : moved.generation ≤ later)
    (given : moved.position.numbered = true → moved.generation ≠ 0)
    (fresh : moved.generation = fill.generation ∨ nextGeneration < moved.generation) :
    Numbered later (fills.set number moved) := by
  have within := (List.getElem?_eq_some_iff.1 found).1
  have collides : ∀ {other : Nat} {one : Fill}, other ≠ number → fills[other]? = some one →
      moved.generation = one.generation → moved.generation ≠ 0 → False := by
    intro other one different sought same positive
    rcases fresh with kept | new
    · exact different (numbered.unique sought found (same.symm.trans kept) (same ▸ positive))
    · have bounded := numbered.allotted one (mem_of_getElem? sought)
      omega
  refine ⟨?_, ?_, ?_⟩
  · intro one member
    rcases mem_or_eq_of_mem_set member with member | rfl
    · exact Nat.le_trans (numbered.allotted one member) grows
    · exact allotted
  · intro one member isNumbered
    rcases mem_or_eq_of_mem_set member with member | rfl
    · exact numbered.given one member isNumbered
    · exact given isNumbered
  · intro one two first second foundOne foundTwo same positive
    by_cases atOne : one = number <;> by_cases atTwo : two = number
    · exact atOne.trans atTwo.symm
    · subst atOne
      rw [getElem?_set_self within] at foundOne
      rw [getElem?_set_ne (Ne.symm atTwo)] at foundTwo
      cases foundOne
      exact (collides atTwo foundTwo same positive).elim
    · subst atTwo
      rw [getElem?_set_self within] at foundTwo
      rw [getElem?_set_ne (Ne.symm atOne)] at foundOne
      cases foundTwo
      exact (collides atOne foundOne same.symm (same ▸ positive)).elim
    · rw [getElem?_set_ne (Ne.symm atOne)] at foundOne
      rw [getElem?_set_ne (Ne.symm atTwo)] at foundTwo
      exact numbered.unique foundOne foundTwo same positive

theorem fill_step (numbered : Numbered backend.nextGeneration fills)
    (found : fills[number]? = some fill) (taken : FillStep backend fill later moved) :
    Numbered later.nextGeneration (fills.set number moved) := by
  have member := mem_of_getElem? found
  rcases taken.generation with ⟨sameNext, kept, stays⟩ | ⟨next, allocated, _⟩
  · rw [sameNext]
    refine numbered.set found (Nat.le_refl _) ?_ ?_ (.inl kept)
    · rw [kept]
      exact numbered.allotted fill member
    · intro isNumbered
      rw [kept]
      exact numbered.given fill member (stays isNumbered)
  · rw [next]
    refine numbered.set found (Nat.le_succ _) ?_ ?_ (.inr ?_)
    all_goals rw [allocated]
    · exact fun _ => Nat.succ_ne_zero _
    · exact Nat.lt_succ_self _

end Numbered

variable {system next : System}

theorem SystemStep.numbered (stepped : SystemStep system next)
    (numbered : Numbered system.backend.nextGeneration system.fills) :
    Numbered next.backend.nextGeneration next.fills := by
  cases stepped with
  | fill found taken => exact numbered.fill_step found taken
  | reserve key registered | lead key => exact numbered.lead rfl rfl
  | refuse | join | invalidate | removeKey | evict | deliver | clear | drain | removeDrained
  | sweep | finishClear => exact numbered

variable {removed key : Key} {generation : Nat}

@[simp]
theorem cache_remove :
    (backend.remove removed).cache key = some generation ↔
      key ≠ removed ∧ backend.cache key = some generation := by
  by_cases same : key = removed
  all_goals simp [MokaBackend.remove, same]

@[simp]
theorem cache_put {putKey : Key} {putGeneration : Nat} :
    (backend.put putKey putGeneration).cache key = some generation ↔
      (key = putKey ∧ generation = putGeneration) ∨
        (key ≠ putKey ∧ backend.cache key = some generation) := by
  by_cases same : key = putKey
  · simp [MokaBackend.put, same, eq_comm]
  · simp [MokaBackend.put, same]

@[simp]
theorem cache_remove_expected {evicted : TrackedKey} :
    (backend.removeExpected evicted).cache key = some generation ↔
      ⟨key, generation⟩ ≠ evicted ∧ backend.cache key = some generation := by
  rw [MokaBackend.removeExpected]
  split
  case isTrue expected =>
    rw [cache_remove]
    constructor
    · rintro ⟨different, cached⟩
      exact ⟨fun same => different (by cases same; rfl), cached⟩
    · rintro ⟨different, cached⟩
      refine ⟨?_, cached⟩
      rintro rfl
      simp_all
  case isFalse unexpected =>
    refine ⟨fun cached => ⟨?_, cached⟩, And.right⟩
    rintro ⟨⟩
    exact unexpected cached

theorem Moves.mayHold {after : Position}
    (moves : Moves backend fill before after) (holds : before.mayHold = true) :
    after.mayHold = true := by
  cases moves <;> first | rfl | cases holds

theorem Moves.settled {after : Position}
    (moves : Moves backend fill before after) (settled : before.mayPut = false) :
    after.mayPut = false := by
  cases moves <;> first | rfl | cases settled

section

variable {backend later : MokaBackend} {fill moved : Fill} {key : Key} {generation : Nat}

theorem FillStep.settled (taken : FillStep backend fill later moved)
    (settled : fill.position.mayPut = false) :
    moved.position.mayPut = false ∧ moved.generation = fill.generation := by
  cases taken with
  | move moves => exact ⟨moves.settled settled, rfl⟩
  | turnAway | undo | withdraw | leave | dropGuard | cancel => exact ⟨rfl, rfl⟩
  | register stands | prune stands | allocate stands | insert stands | removeVictim stands
  | put stands =>
    rw [stands] at settled
    cases settled

theorem FillStep.cached (taken : FillStep backend fill later moved)
    (cached : later.cache key = some generation) :
    (fill.position = .publishing ∧ moved = fill.moveTo .published ∧ key = fill.key ∧
        generation = fill.generation) ∨
      (backend.cache key = some generation ∧
        (fill.position.mayHold = true → key = fill.key →
          moved.position.mayHold = true ∧ moved.generation = fill.generation)) := by
  cases taken with
  | move moves => exact .inr ⟨cached, fun holds _ => ⟨moves.mayHold holds, rfl⟩⟩
  | turnAway | withdraw | leave | dropGuard => exact .inr ⟨cached, fun _ _ => ⟨rfl, rfl⟩⟩
  | register stands | prune stands | allocate stands | insert stands =>
    refine .inr ⟨cached, fun holds => ?_⟩
    rw [stands] at holds
    cases holds
  | cancel stands =>
    refine .inr ⟨cached, fun holds => ?_⟩
    rcases stands with stands | stands <;> rw [stands] at holds <;> cases holds
  | removeVictim stands =>
    refine .inr ⟨(cache_remove_expected.1 cached).2, fun holds => ?_⟩
    rw [stands] at holds
    cases holds
  | put stands =>
    rcases cache_put.1 cached with ⟨same, own⟩ | ⟨_, before⟩
    · exact .inl ⟨stands, rfl, same, own⟩
    · refine .inr ⟨before, fun holds => ?_⟩
      rw [stands] at holds
      cases holds
  | undo stands =>
    obtain ⟨different, before⟩ := cache_remove.1 cached
    exact .inr ⟨before, fun _ same => absurd same different⟩

end

structure Owner (fills : List Fill) (key : Key) (generation number : Nat) (fill : Fill) : Prop where
  found : fills[number]? = some fill
  sameKey : fill.key = key
  sameGeneration : fill.generation = generation
  holds : fill.position.mayHold = true

/-- What the cache and the notices say of the fills: a noticed entry is out of
the cache, and its fill puts no entry any more. -/
structure Owned (system : System) : Prop where
  owner : ∀ {key : Key} {generation : Nat}, system.backend.cache key = some generation →
    ∃ number fill, Owner system.fills key generation number fill
  notCached : ∀ evicted ∈ system.notices,
    system.backend.cache evicted.key ≠ some evicted.generation
  settled : ∀ evicted ∈ system.notices, ∃ (number : Nat) (fill : Fill),
    system.fills[number]? = some fill ∧ fill.generation = evicted.generation ∧
      fill.position.mayPut = false

theorem Owner.settled {fills : List Fill}
    (owner : Owner fills key generation number fill) : fill.position.mayPut = false := by
  have holds := owner.holds
  cases stands : fill.position <;> rw [stands] at holds <;> first | rfl | cases holds

namespace Owned

variable {system next : System} {key : Key} {generation number : Nat} {fill moved : Fill}
  {backend : MokaBackend}

theorem of_cached (owned : Owned system) (numbered : Numbered system.backend.nextGeneration system.fills)
    (cached : system.backend.cache key = some generation) (positive : generation ≠ 0)
    (found : system.fills[number]? = some fill) (same : fill.generation = generation) :
    Owner system.fills key generation number fill := by
  obtain ⟨other, one, owner⟩ := owned.owner cached
  have sameGeneration := owner.sameGeneration.trans same.symm
  obtain rfl := numbered.unique owner.found found sameGeneration (owner.sameGeneration ▸ positive)
  obtain rfl := Option.some.inj (owner.found.symm.trans found)
  exact owner

theorem not_cached (owned : Owned system)
    (numbered : Numbered system.backend.nextGeneration system.fills)
    (found : system.fills[number]? = some fill) (isNumbered : fill.position.numbered = true)
    (holdsNone : fill.position.mayHold = false) (key : Key) :
    system.backend.cache key ≠ some fill.generation := by
  intro cached
  have positive := numbered.given fill (mem_of_getElem? found) isNumbered
  have owner := owned.of_cached numbered cached positive found rfl
  rw [owner.holds] at holdsNone
  cases holdsNone

theorem shrink (owned : Owned system) (fills : ∀ {number : Nat} {fill : Fill},
      system.fills[number]? = some fill → next.fills[number]? = some fill)
    (cache : ∀ {key : Key} {generation : Nat}, next.backend.cache key = some generation →
      system.backend.cache key = some generation)
    (notices : ∀ evicted ∈ next.notices, evicted ∈ system.notices) : Owned next where
  owner cached := by
    obtain ⟨number, fill, owner⟩ := owned.owner (cache cached)
    exact ⟨number, fill, fills owner.found, owner.sameKey, owner.sameGeneration, owner.holds⟩
  notCached evicted member cached := owned.notCached evicted (notices evicted member) (cache cached)
  settled evicted member := by
    obtain ⟨number, fill, found, rest⟩ := owned.settled evicted (notices evicted member)
    exact ⟨number, fill, fills found, rest⟩

theorem fill_step (owned : Owned system)
    (numbered : Numbered system.backend.nextGeneration system.fills)
    (found : system.fills[number]? = some fill)
    (taken : FillStep system.backend fill backend moved) :
    Owned (system.moveFill number (backend, moved)) where
  owner {key generation} cached := by
    have within := (List.getElem?_eq_some_iff.1 found).1
    rcases taken.cached cached with ⟨_, rfl, rfl, rfl⟩ | ⟨before, stays⟩
    · exact ⟨number, _, getElem?_set_self within, rfl, rfl, rfl⟩
    · obtain ⟨other, one, owner⟩ := owned.owner before
      rcases found_set moved found owner.found with ⟨rfl, rfl, now⟩ | ⟨_, now⟩
      · obtain ⟨holds, kept⟩ := stays owner.holds owner.sameKey.symm
        exact ⟨other, moved, now, taken.key.trans owner.sameKey, kept.trans owner.sameGeneration,
          holds⟩
      · exact ⟨other, one, now, owner.sameKey, owner.sameGeneration, owner.holds⟩
  notCached evicted member cached := by
    rcases taken.cached cached with ⟨stands, _, _, same⟩ | ⟨before, _⟩
    · obtain ⟨other, one, sought, sameGeneration, settled⟩ := owned.settled evicted member
      have positive := numbered.given fill (mem_of_getElem? found) (by rw [stands]; rfl)
      obtain rfl := numbered.unique found sought (same.symm.trans sameGeneration.symm) positive
      obtain rfl := Option.some.inj (found.symm.trans sought)
      rw [stands] at settled
      cases settled
    · exact owned.notCached evicted member before
  settled evicted member := by
    obtain ⟨other, one, sought, sameGeneration, settled⟩ := owned.settled evicted member
    rcases found_set moved found sought with ⟨rfl, rfl, now⟩ | ⟨_, now⟩
    · obtain ⟨stillSettled, kept⟩ := taken.settled settled
      exact ⟨other, moved, now, kept.trans sameGeneration, stillSettled⟩
    · exact ⟨other, one, now, sameGeneration, settled⟩

theorem evict (owned : Owned system) (cached : system.backend.cache key = some generation) :
    Owned { system with
      backend := system.backend.remove key
      notices := system.notices ++ [⟨key, generation⟩] } where
  owner cached := owned.owner (cache_remove.1 cached).2
  notCached evicted member stillCached := by
    obtain ⟨different, before⟩ := cache_remove.1 stillCached
    rcases mem_append.1 member with old | new
    · exact owned.notCached evicted old before
    · rw [mem_singleton.1 new] at different
      exact different rfl
  settled evicted member := by
    rcases mem_append.1 member with old | new
    · exact owned.settled evicted old
    · obtain ⟨number, fill, owner⟩ := owned.owner cached
      rw [mem_singleton.1 new]
      exact ⟨number, fill, owner.found, owner.sameGeneration, owner.settled⟩

end Owned

theorem SystemStep.owned (stepped : SystemStep system next)
    (numbered : Numbered system.backend.nextGeneration system.fills) (owned : Owned system) :
    Owned next := by
  cases stepped with
  | fill found taken => exact owned.fill_step numbered found taken
  | reserve key registered | lead key => exact owned.shrink found_append id fun _ => id
  | removeKey | removeDrained =>
    exact owned.shrink id (fun cached => (cache_remove.1 cached).2) fun _ => id
  | evict cached => exact owned.evict cached
  | deliver => exact owned.shrink id id fun _ => mem_of_mem_eraseIdx
  | sweep => exact owned.shrink id (fun cached => by cases cached) fun _ => id
  | refuse | join | invalidate | clear | drain | finishClear =>
    exact owned.shrink id id fun _ => id

/-- A fill has an entry in hand: its own before it is confirmed, its victims,
and whatever its own key still holds before the put. -/
def Fill.InHand (self : Fill) (key : Key) (generation : Nat) : Prop :=
  (self.key = key ∧ self.generation = generation ∧ self.position.unconfirmed = true) ∨
    ⟨key, generation⟩ ∈ self.position.victims ∨
      (self.key = key ∧ self.position.refilling = true)

/-- A clear that has not swept the cache yet. -/
def ClearFence.Clearing (self : ClearFence) : Prop :=
  self.clear = some .waiting ∨ ∃ keys, self.clear = some (.draining keys)

def System.InHand (self : System) (key : Key) (generation : Nat) : Prop :=
  (∃ fill ∈ self.fills, fill.InHand key generation) ∨
    (∃ keys ∈ self.invalidations, key ∈ keys) ∨ self.backend.clearFence.Clearing

structure Accounted (system : System) : Prop where
  cached : ∀ {key : Key} {generation : Nat}, system.backend.cache key = some generation →
    system.backend.index.Registered key generation ∨ system.InHand key generation
  swept : system.backend.clearFence.clear = some .swept ∨
    system.backend.clearFence.clear = some .completed → ∀ key, system.backend.cache key = none

theorem Accounted.stays_swept (accounted : Accounted system)
    (cache : ∀ {key : Key} {generation : Nat}, next.backend.cache key = some generation →
      system.backend.cache key = some generation)
    (swept : system.backend.clearFence.clear = some .swept ∨
      system.backend.clearFence.clear = some .completed) (key : Key) :
    next.backend.cache key = none := by
  rw [Option.eq_none_iff_forall_ne_some]
  intro generation cached
  have before := cache cached
  rw [accounted.swept swept key] at before
  cases before

section

variable {backend later : MokaBackend} {fill moved : Fill} {key : Key} {generation : Nat}

theorem FillStep.registered (taken : FillStep backend fill later moved)
    (withdrawn : fill.position = .withdrawing → backend.cache fill.key ≠ some fill.generation)
    (cached : backend.cache key = some generation)
    (registered : backend.index.Registered key generation) :
    later.index.Registered key generation ∨ moved.InHand key generation := by
  cases taken with
  | prune stands keepsCached =>
    refine .inl (registered_prune_missing.2 ⟨registered, fun _ => ?_⟩)
    exact keepsCached key (by simp [cached])
  | insert stands =>
    by_cases same : fill.key = key
    · exact .inr (.inr (.inr ⟨same, rfl⟩))
    · refine (kept_or_evicted (Ne.symm same) registered).imp_right ?_
      exact fun evicted => .inr (.inl evicted)
  | withdraw stands =>
    refine .inl (registered_remove_generation.2 ⟨registered, ?_⟩)
    rintro ⟨⟩
    exact withdrawn stands cached
  | removeVictim =>
    rw [MokaBackend.removeExpected]
    split <;> exact .inl registered
  | move | register | turnAway | allocate | put | undo | leave | dropGuard | cancel =>
    exact .inl registered

theorem Fill.not_in_hand (confirmed : fill.position.unconfirmed = false)
    (noVictims : fill.position.victims = []) (noRefill : fill.position.refilling = false) :
    ¬fill.InHand key generation := by
  simp [Fill.InHand, confirmed, noVictims, noRefill]

theorem Moves.in_hand {after : Position} (moves : Moves backend fill before after)
    (stands : fill.position = before)
    (waits : fill.isCurrent backend = false → backend.clearFence.clear = some .waiting)
    (held : fill.InHand key generation) :
    backend.index.Registered key generation ∨ (fill.moveTo after).InHand key generation ∨
      backend.clearFence.clear = some .waiting := by
  cases moves with
  | confirmed =>
    simp only [Fill.InHand, stands, unconfirmed, victims, refilling,
      Bool.false_eq_true, and_false, not_mem_nil, false_or, and_true] at held
    exact .inr (.inl (.inr (.inr ⟨held, rfl⟩)))
  | fencedOff stale => exact .inr (.inr (waits stale))
  | rechecked indexed seen =>
    simp only [Fill.InHand, stands, unconfirmed, victims, refilling,
      Bool.false_eq_true, and_false, not_mem_nil, or_false, and_true] at held
    obtain ⟨rfl, rfl⟩ := held
    cases indexed with
    | true => exact .inl (seen.1 rfl)
    | false => exact .inr (.inl (.inl ⟨rfl, rfl, rfl⟩))
  | raced indexed =>
    cases indexed with
    | true =>
      exact absurd held (Fill.not_in_hand (by rw [stands]; rfl) (by rw [stands]; rfl)
        (by rw [stands]; rfl))
    | false =>
      simp only [Fill.InHand, stands, unconfirmed, victims,
        refilling, Bool.false_eq_true, and_false, not_mem_nil, or_false,
        and_true] at held
      exact .inr (.inl (.inl ⟨held.1, held.2, rfl⟩))
  | joined | led | admitted | refused | skipped | exhausted | entered | shutOut | inserted
  | withdrawing | leftToDrain =>
    exact absurd held (Fill.not_in_hand (by rw [stands]; rfl) (by rw [stands]; rfl)
      (by rw [stands]; rfl))

/-- An entry in the hands of a fill stays there until it is gone, unless it is
found registered or a clear is to drain it. -/
theorem FillStep.in_hand (taken : FillStep backend fill later moved)
    (waits : fill.position.guarded = true → fill.isCurrent backend = false →
      backend.clearFence.clear = some .waiting)
    (held : fill.InHand key generation) (cached : later.cache key = some generation) :
    later.index.Registered key generation ∨ moved.InHand key generation ∨
      later.clearFence.clear = some .waiting := by
  cases taken with
  | move moves => exact moves.in_hand rfl (waits moves.guarded.1) held
  | removeVictim stands =>
    refine .inr (.inl ?_)
    obtain ⟨notVictim, _⟩ := cache_remove_expected.1 cached
    simp only [Fill.InHand, stands, unconfirmed, victims, refilling,
      Bool.false_eq_true, and_false, mem_cons, false_or, and_true] at held
    rcases held with (victim | later) | same
    · exact absurd victim notVictim
    · exact .inr (.inl later)
    · exact .inr (.inr ⟨same, rfl⟩)
  | put stands =>
    simp only [Fill.InHand, stands, unconfirmed, victims, refilling,
      Bool.false_eq_true, and_false, not_mem_nil, false_or, and_true] at held
    rcases cache_put.1 cached with ⟨_, own⟩ | ⟨different, _⟩
    · exact .inr (.inl (.inl ⟨held, own.symm, rfl⟩))
    · exact absurd held.symm different
  | undo stands =>
    simp only [Fill.InHand, stands, unconfirmed, victims, refilling,
      Bool.false_eq_true, and_false, not_mem_nil, or_false, and_true] at held
    exact absurd held.1.symm (cache_remove.1 cached).1
  | cancel stands =>
    refine absurd held (Fill.not_in_hand ?_ ?_ ?_) <;>
      rcases stands with stands | stands <;> rw [stands] <;> rfl
  | register stands | turnAway stands | prune stands | allocate stands | insert stands
  | withdraw stands | leave stands | dropGuard stands =>
    exact absurd held (Fill.not_in_hand (by rw [stands]; rfl) (by rw [stands]; rfl)
      (by rw [stands]; rfl))

theorem FillStep.clear (taken : FillStep backend fill later moved)
    (bounded : backend.clearFence.activeFills ≤ ClearFence.maxHandles) :
    later.clearFence.clear = backend.clearFence.clear := by
  rcases taken.fence bounded with ⟨same, _⟩ | ⟨_, _, registered⟩ | ⟨_, _, dropped⟩
  · rw [same]
  · rw [(ClearFence.try_register_some registered).2.2.2]
  · rw [dropped, ClearFence.dropGuard]
    split <;> rfl

end

/-- The invariants of the backend together. -/
structure Sound (system : System) : Prop where
  fenced : Fenced system.backend.clearFence system.fills
  numbered : Numbered system.backend.nextGeneration system.fills
  owned : Owned system
  accounted : Accounted system

namespace Sound

variable {system next : System} {number : Nat} {fill moved : Fill} {backend : MokaBackend}

theorem sound_new (identityKeysMax : Nat) : Sound (System.new identityKeysMax) where
  fenced := Fenced.fenced_new
  numbered := Numbered.numbered_new
  owned := ⟨fun cached => (by cases cached), by simp [System.new], by simp [System.new]⟩
  accounted := ⟨fun cached => (by cases cached), fun _ _ => rfl⟩

theorem swept_fill_step (sound : Sound system) (found : system.fills[number]? = some fill)
    (taken : FillStep system.backend fill backend moved)
    (swept : system.backend.clearFence.clear = some .swept ∨
      system.backend.clearFence.clear = some .completed) (key : Key) : backend.cache key = none := by
  rw [Option.eq_none_iff_forall_ne_some]
  intro generation cached
  rcases taken.cached cached with ⟨stands, _⟩ | ⟨before, _⟩
  · have active := sound.fenced.some_active (mem_of_getElem? found) (by rw [stands]; rfl)
    have idle := sound.fenced.quiesced (by rcases swept with swept | swept <;> simp [swept])
      (by rcases swept with swept | swept <;> simp [swept])
    omega
  · rw [sound.accounted.swept swept key] at before
    cases before

theorem accounted_fill_step (sound : Sound system) (found : system.fills[number]? = some fill)
    (taken : FillStep system.backend fill backend moved) :
    Accounted (system.moveFill number (backend, moved)) := by
  have member := mem_of_getElem? found
  have within := (List.getElem?_eq_some_iff.1 found).1
  have sameClear := taken.clear sound.fenced.bounded
  have placed : moved ∈ system.fills.set number moved := mem_set within _
  refine ⟨?_, fun swept key => sound.swept_fill_step found taken (sameClear ▸ swept) key⟩
  intro key generation cached
  rcases taken.cached cached with ⟨_, rfl, rfl, rfl⟩ | ⟨before, _⟩
  · exact .inr (.inl ⟨_, placed, .inl ⟨rfl, rfl, rfl⟩⟩)
  rcases sound.accounted.cached before with registered | ⟨one, oneMember, held⟩ | invalidating | clearing
  · have withdrawn : fill.position = .withdrawing →
        system.backend.cache fill.key ≠ some fill.generation := fun stands =>
      sound.owned.not_cached sound.numbered found (by rw [stands]; rfl) (by rw [stands]; rfl) _
    refine (taken.registered withdrawn before registered).imp_right fun held => ?_
    exact .inl ⟨moved, placed, held⟩
  · obtain ⟨other, sought⟩ := mem_iff_getElem?.1 oneMember
    rcases found_set moved found sought with ⟨_, rfl, _⟩ | ⟨_, now⟩
    · have waits := sound.fenced.waiting_of_stale member
      rcases taken.in_hand waits held cached with registered | held | waiting
      · exact .inl registered
      · exact .inr (.inl ⟨moved, placed, held⟩)
      · exact .inr (.inr (.inr (.inl waiting)))
    · exact .inr (.inl ⟨one, mem_of_getElem? now, held⟩)
  · exact .inr (.inr (.inl invalidating))
  · exact .inr (.inr (.inr (by rwa [ClearFence.Clearing, ← sameClear] at clearing)))

variable {keys : List Key}

theorem accounted_invalidate (sound : Sound system) {index : StarshardIdentityIndex}
    {predicate : Identity → Bool} (taken : system.backend.index.Takes index keys predicate) :
    Accounted (system.beginInvalidation (index, keys)) := by
  refine ⟨?_, sound.accounted.swept⟩
  intro key generation cached
  rcases sound.accounted.cached cached with registered | held | ⟨others, member, inOthers⟩ | clearing
  · cases chosen : predicate key.identity with
    | false => exact .inl ((taken.left key generation).2 ⟨registered, chosen⟩)
    | true =>
      refine .inr (.inr (.inl ⟨keys, mem_append_right _ (mem_singleton.2 rfl), ?_⟩))
      exact taken.handedOut key generation registered chosen
  · exact .inr (.inl held)
  · exact .inr (.inr (.inl ⟨others, mem_append_left _ member, inOthers⟩))
  · exact .inr (.inr (.inr clearing))

theorem accounted_remove_key (sound : Sound system)
    (found : system.invalidations[number]? = some (removed :: keys)) :
    Accounted { system with
      backend := system.backend.remove removed
      invalidations := system.invalidations.set number keys } := by
  have within := (List.getElem?_eq_some_iff.1 found).1
  refine ⟨?_, fun swept key => ?_⟩
  · intro key generation cached
    obtain ⟨different, before⟩ := cache_remove.1 cached
    rcases sound.accounted.cached before with registered | held | ⟨others, member, inOthers⟩ | clearing
    · exact .inl registered
    · exact .inr (.inl held)
    · refine .inr (.inr (.inl ?_))
      obtain ⟨other, sought⟩ := mem_iff_getElem?.1 member
      rcases found_set keys found sought with ⟨_, rfl, _⟩ | ⟨_, now⟩
      · exact ⟨keys, mem_set within _, mem_of_ne_of_mem different inOthers⟩
      · exact ⟨others, mem_of_getElem? now, inOthers⟩
    · exact .inr (.inr (.inr clearing))
  · exact sound.accounted.stays_swept (fun cached => (cache_remove.1 cached).2) swept key

end Sound

namespace Accounted

variable {system next : System}

theorem shrink (accounted : Accounted system)
    (cache : ∀ {key : Key} {generation : Nat}, next.backend.cache key = some generation →
      system.backend.cache key = some generation) (registrations : ∀ {key : Key} {generation : Nat},
      next.backend.cache key = some generation → system.backend.index.Registered key generation →
        next.backend.index.Registered key generation)
    (fills : ∀ fill ∈ system.fills, fill ∈ next.fills)
    (invalidations : next.invalidations = system.invalidations)
    (sameClear : next.backend.clearFence.clear = system.backend.clearFence.clear) :
    Accounted next := by
  refine ⟨?_, fun swept key => ?_⟩
  · intro key generation cached
    rcases accounted.cached (cache cached) with registered | ⟨fill, member, held⟩ | rest
    · exact .inl (registrations cached registered)
    · exact .inr (.inl ⟨fill, fills fill member, held⟩)
    · refine .inr (.inr ?_)
      rwa [invalidations, ClearFence.Clearing, sameClear]
  · exact accounted.stays_swept cache (sameClear ▸ swept) key

theorem of_clearing (clearing : next.backend.clearFence.Clearing) : Accounted next := by
  refine ⟨fun _ => .inr (.inr (.inr clearing)), fun swept => ?_⟩
  rcases clearing with clearing | ⟨keys, clearing⟩ <;> rcases swept with swept | swept <;>
    cases clearing.symm.trans swept

theorem of_empty (empty : ∀ key, next.backend.cache key = none) : Accounted next := by
  refine ⟨fun {key generation} cached => ?_, fun _ => empty⟩
  rw [empty key] at cached
  cases cached

end Accounted

theorem SystemStep.accounted (stepped : SystemStep system next)
    (sound : Sound system) : Accounted next := by
  have accounted := sound.accounted
  cases stepped with
  | fill found taken => exact sound.accounted_fill_step found taken
  | reserve key registered =>
    refine accounted.shrink id (fun _ => id) (fun _ => mem_append_left _) rfl ?_
    rw [(ClearFence.try_register_some registered).2.2.2]
  | refuse refused =>
    refine accounted.shrink id (fun _ => id) (fun _ => id) rfl ?_
    rw [ClearFence.try_register_none sound.fenced.bounded refused]
  | lead key => exact accounted.shrink id (fun _ => id) (fun _ => mem_append_left _) rfl rfl
  | join => exact accounted
  | invalidate taken => exact sound.accounted_invalidate taken
  | removeKey found => exact sound.accounted_remove_key found
  | evict =>
    exact accounted.shrink (fun cached => (cache_remove.1 cached).2) (fun _ => id) (fun _ => id)
      rfl rfl
  | deliver found =>
    refine accounted.shrink id (fun {key generation} cached registered => ?_) (fun _ => id) rfl rfl
    refine registered_remove_generation.2 ⟨registered, ?_⟩
    rintro ⟨⟩
    exact sound.owned.notCached _ (mem_of_getElem? found) cached
  | clear =>
    rw [ClearFence.beginClear]
    split
    · exact accounted
    · exact .of_clearing (.inl rfl)
  | drain | removeDrained => exact .of_clearing (.inr ⟨_, rfl⟩)
  | sweep => exact .of_empty fun _ => rfl
  | finishClear swept => exact .of_empty (accounted.swept (.inl swept))

theorem Sound.step {event : Event} (sound : Sound system)
    (stepped : system.step event = some next) : Sound next :=
  have taken := System.step_system stepped
  ⟨taken.fenced sound.fenced, taken.numbered sound.numbered, taken.owned sound.numbered sound.owned,
    taken.accounted sound⟩

variable {events : List Event}

theorem sound_run {identityKeysMax : Nat}
    (ran : Library.run System.step (System.new identityKeysMax) events = some system) : Sound system :=
  Library.run_keeps Sound.step (Sound.sound_new identityKeysMax) ran

section

variable {backend later : MokaBackend} {fill moved : Fill} {key : Key} {generation : Nat}

theorem Moves.past_registration {after : Position} (moves : Moves backend fill before after)
    (past : before.pastRegistration = true) : after.pastRegistration = true := by
  cases moves <;> first | rfl | cases past

theorem FillStep.past_registration (taken : FillStep backend fill later moved)
    (past : fill.position.pastRegistration = true) :
    moved.position.pastRegistration = true ∧ moved.generation = fill.generation := by
  cases taken with
  | move moves => exact ⟨moves.past_registration past, rfl⟩
  | insert | removeVictim | put | undo | turnAway | withdraw | leave | dropGuard | cancel =>
    exact ⟨rfl, rfl⟩
  | register stands | prune stands | allocate stands =>
    rw [stands] at past
    cases past

theorem Moves.not_leading {after : Position} (moves : Moves backend fill before after) :
    after ≠ .leading := by
  cases moves <;> simp

theorem FillStep.not_leading (taken : FillStep backend fill later moved) :
    moved.position ≠ .leading := by
  cases taken with
  | move moves => exact moves.not_leading
  | _ => simp [Fill.moveTo]

theorem FillStep.registers (taken : FillStep backend fill later moved)
    (registered : later.index.Registered key generation) :
    backend.index.Registered key generation ∨
      (fill.position = .entered ∧ generation = fill.generation) := by
  cases taken with
  | prune => exact .inl (registered_prune_missing.1 registered).1
  | insert stands =>
    refine (registered_insert_generation registered).imp_right ?_
    exact fun same => ⟨stands, (Prod.mk.inj same).2⟩
  | withdraw => exact .inl (registered_remove_generation.1 registered).1
  | removeVictim =>
    rw [MokaBackend.removeExpected] at registered
    split at registered <;> exact .inl registered
  | move | register | turnAway | allocate | put | undo | leave | dropGuard | cancel =>
    exact .inl registered

theorem FillStep.stays_unconfirmed (taken : FillStep backend fill later moved)
    (unregistered : ¬backend.index.Registered fill.key fill.generation)
    (unconfirmed : fill.position.unconfirmed = true)
    (cached : later.cache fill.key = some fill.generation) : moved.position.unconfirmed = true := by
  cases taken with
  | move moves =>
    generalize stands : fill.position = before at moves unconfirmed
    cases moves with
    | rechecked indexed seen =>
      cases indexed with
      | true => exact absurd (seen.1 rfl) unregistered
      | false => rfl
    | raced => rfl
    | _ => cases unconfirmed
  | undo => exact absurd rfl (cache_remove.1 cached).1
  | cancel stands => rcases stands with stands | stands <;> rw [stands] at unconfirmed <;> cases unconfirmed
  | register stands | turnAway stands | prune stands | allocate stands | insert stands
  | removeVictim stands | put stands | withdraw stands | leave stands | dropGuard stands =>
    rw [stands] at unconfirmed
    cases unconfirmed

end

/-- The registration of an entry is behind its fill and has been taken. -/
structure Taken (system : System) (number : Nat) (task : Fill) (key : Key) (generation : Nat) :
    Prop where
  found : system.fills[number]? = some task
  sameKey : task.key = key
  sameGeneration : task.generation = generation
  past : task.position.pastRegistration = true
  unregistered : ¬system.backend.index.Registered key generation

/-- The entry, if it is cached, goes with the keys of the invalidation or with
the recheck of its own fill. -/
def Expiring (system : System) (invalidation : Nat) (task : Fill) (key : Key) (generation : Nat) :
    Prop :=
  system.backend.cache key = some generation →
    (∃ keys, system.invalidations[invalidation]? = some keys ∧ key ∈ keys) ∨
      task.position.unconfirmed = true

section

variable {system next : System} {number invalidation : Nat} {task : Fill} {key : Key} {generation : Nat}

theorem Taken.fill_step (taken : Taken system number task key generation)
    (numbered : Numbered system.backend.nextGeneration system.fills)
    (found : system.fills[other]? = some fill)
    (stepped : FillStep system.backend fill backend moved) :
    ∃ after, Taken (system.moveFill other (backend, moved)) number after key generation ∧
      ((number = other ∧ fill = task ∧ after = moved) ∨ (number ≠ other ∧ after = task)) := by
  have unregistered : ¬backend.index.Registered key generation := by
    intro registered
    rcases stepped.registers registered with before | ⟨stands, own⟩
    · exact taken.unregistered before
    · have positive := numbered.given fill (mem_of_getElem? found) (by rw [stands]; rfl)
      obtain rfl := numbered.unique found taken.found (own.symm.trans taken.sameGeneration.symm) positive
      obtain rfl := Option.some.inj (found.symm.trans taken.found)
      have past := taken.past
      rw [stands] at past
      cases past
  rcases found_set moved found taken.found with ⟨rfl, rfl, now⟩ | ⟨different, now⟩
  · obtain ⟨past, kept⟩ := stepped.past_registration taken.past
    exact ⟨moved, ⟨now, stepped.key.trans taken.sameKey, kept.trans taken.sameGeneration, past,
      unregistered⟩, .inl ⟨rfl, rfl, rfl⟩⟩
  · exact ⟨task, ⟨now, taken.sameKey, taken.sameGeneration, taken.past, unregistered⟩,
      .inr ⟨different, rfl⟩⟩

theorem Taken.keep (taken : Taken system number task key generation)
    (fills : ∀ {number : Nat} {fill : Fill},
      system.fills[number]? = some fill → next.fills[number]? = some fill)
    (registrations : next.backend.index.Registered key generation →
      system.backend.index.Registered key generation) : Taken next number task key generation :=
  ⟨fills taken.found, taken.sameKey, taken.sameGeneration, taken.past,
    fun registered => taken.unregistered (registrations registered)⟩

theorem Expiring.fill_step (expiring : Expiring system invalidation task key generation)
    (taken : Taken system number task key generation)
    (numbered : Numbered system.backend.nextGeneration system.fills)
    {after : Fill} (found : system.fills[other]? = some fill)
    (stepped : FillStep system.backend fill backend moved)
    (moves : (number = other ∧ fill = task ∧ after = moved) ∨ (number ≠ other ∧ after = task)) :
    Expiring (system.moveFill other (backend, moved)) invalidation after key generation := by
  intro cached
  rcases stepped.cached cached with ⟨stands, put, _, own⟩ | ⟨before, _⟩
  · have positive := numbered.given fill (mem_of_getElem? found) (by rw [stands]; rfl)
    have same := numbered.unique found taken.found (own.symm.trans taken.sameGeneration.symm) positive
    rcases moves with ⟨_, _, rfl⟩ | ⟨different, _⟩
    · exact .inr (by rw [put]; rfl)
    · exact absurd same.symm different
  · refine (expiring before).imp_right fun unconfirmed => ?_
    rcases moves with ⟨_, rfl, rfl⟩ | ⟨_, rfl⟩
    · obtain ⟨_, rfl, rfl, _, unregistered⟩ := taken
      exact stepped.stays_unconfirmed unregistered unconfirmed cached
    · exact unconfirmed

theorem Expiring.shrink (expiring : Expiring system invalidation task key generation)
    (cache : next.backend.cache key = some generation →
      system.backend.cache key = some generation)
    (invalidations : ∀ {keys : List Key}, system.invalidations[invalidation]? = some keys →
      next.invalidations[invalidation]? = some keys) :
    Expiring next invalidation task key generation := by
  intro cached
  refine (expiring (cache cached)).imp_left ?_
  rintro ⟨keys, found, member⟩
  exact ⟨keys, invalidations found, member⟩

theorem Expiring.remove_key (expiring : Expiring system invalidation task key generation) {rest : List Key}
    (found : system.invalidations[other]? = some (removed :: rest)) :
    Expiring { system with
      backend := system.backend.remove removed
      invalidations := system.invalidations.set other rest } invalidation task key generation := by
  intro cached
  obtain ⟨different, before⟩ := cache_remove.1 cached
  refine (expiring before).imp_left ?_
  rintro ⟨keys, sought, member⟩
  rcases found_set rest found sought with ⟨rfl, rfl, now⟩ | ⟨_, now⟩
  · exact ⟨rest, now, mem_of_ne_of_mem different member⟩
  · exact ⟨keys, now, member⟩

end

variable {task : Fill}

theorem SystemStep.taken (stepped : SystemStep system next)
    (numbered : Numbered system.backend.nextGeneration system.fills)
    (taken : Taken system number task key generation) :
    ∃ after, Taken next number after key generation ∧
      ∀ {invalidation : Nat}, Expiring system invalidation task key generation →
        Expiring next invalidation after key generation := by
  cases stepped with
  | fill found step =>
    obtain ⟨after, still, moves⟩ := taken.fill_step numbered found step
    exact ⟨after, still, fun expiring => expiring.fill_step taken numbered found step moves⟩
  | reserve key registered => exact ⟨task, taken.keep found_append id, fun expiring => expiring.shrink id id⟩
  | lead key => exact ⟨task, taken.keep found_append id, fun expiring => expiring.shrink id id⟩
  | invalidate takes =>
    refine ⟨task, taken.keep id fun registered => ((takes.left _ _).1 registered).1, ?_⟩
    exact fun expiring => expiring.shrink id found_append
  | removeKey found => exact ⟨task, taken.keep id id, fun expiring => expiring.remove_key found⟩
  | evict =>
    exact ⟨task, taken.keep id id, fun expiring =>
      expiring.shrink (fun cached => (cache_remove.1 cached).2) id⟩
  | deliver =>
    refine ⟨task, taken.keep id fun registered => ?_, fun expiring => expiring.shrink id id⟩
    exact (registered_remove_generation.1 registered).1
  | drain _ _ takes =>
    refine ⟨task, taken.keep id fun registered => ((takes.left _ _).1 registered).1, ?_⟩
    exact fun expiring => expiring.shrink id id
  | removeDrained =>
    exact ⟨task, taken.keep id id, fun expiring =>
      expiring.shrink (fun cached => (cache_remove.1 cached).2) id⟩
  | sweep => exact ⟨task, taken.keep id id, fun _ cached => by cases cached⟩
  | refuse | join | clear | finishClear =>
    exact ⟨task, taken.keep id id, fun expiring => expiring.shrink id id⟩

/-- An entry that is out of the cache and whose fill puts none any more. -/
structure Gone (system : System) (number : Nat) (task : Fill) : Prop where
  found : system.fills[number]? = some task
  settled : task.position.mayPut = false
  notCached : system.backend.cache task.key ≠ some task.generation

theorem Gone.shrink (gone : Gone system number task) (fills : ∀ {number : Nat} {fill : Fill},
      system.fills[number]? = some fill → next.fills[number]? = some fill)
    (cache : ∀ {key : Key} {generation : Nat}, next.backend.cache key = some generation →
      system.backend.cache key = some generation) : Gone next number task :=
  ⟨fills gone.found, gone.settled, fun cached => gone.notCached (cache cached)⟩

theorem SystemStep.gone (stepped : SystemStep system next)
    (numbered : Numbered system.backend.nextGeneration system.fills)
    (gone : Gone system number task) : ∃ after, Gone next number after := by
  cases stepped with
  | @fill other fill moved backend found step =>
    have notCached : backend.cache task.key ≠ some task.generation := by
      intro cached
      rcases step.cached cached with ⟨stands, _, _, own⟩ | ⟨before, _⟩
      · have positive := numbered.given fill (mem_of_getElem? found) (by rw [stands]; rfl)
        obtain rfl := numbered.unique found gone.found own.symm positive
        obtain rfl := Option.some.inj (found.symm.trans gone.found)
        have settled := gone.settled
        rw [stands] at settled
        cases settled
      · exact gone.notCached before
    rcases found_set moved found gone.found with ⟨rfl, rfl, now⟩ | ⟨_, now⟩
    · obtain ⟨settled, kept⟩ := step.settled gone.settled
      exact ⟨moved, now, settled, by rw [step.key, kept]; exact notCached⟩
    · exact ⟨task, now, gone.settled, notCached⟩
  | reserve | lead => exact ⟨task, gone.shrink found_append id⟩
  | removeKey | evict | removeDrained =>
    exact ⟨task, gone.shrink id fun cached => (cache_remove.1 cached).2⟩
  | sweep => exact ⟨task, gone.shrink id fun cached => by cases cached⟩
  | refuse | join | invalidate | deliver | clear | drain | finishClear =>
    exact ⟨task, gone.shrink id id⟩

theorem SystemStep.begun (stepped : SystemStep system next)
    (begun : ∃ task, system.fills[number]? = some task ∧ task.position ≠ .leading) :
    ∃ task, next.fills[number]? = some task ∧ task.position ≠ .leading := by
  obtain ⟨task, found, notLeading⟩ := begun
  cases stepped with
  | @fill other fill moved backend sought step =>
    rcases found_set moved sought found with ⟨rfl, rfl, now⟩ | ⟨_, now⟩
    · exact ⟨moved, now, step.not_leading⟩
    · exact ⟨task, now, notLeading⟩
  | reserve | lead => exact ⟨task, found_append found, notLeading⟩
  | refuse | join | invalidate | removeKey | evict | deliver | clear | drain | removeDrained | sweep
  | finishClear => exact ⟨task, found, notLeading⟩

namespace System

def CachesEntryOf (self : System) (fill : Nat) : Prop :=
  ∃ task, self.fills[fill]? = some task ∧ self.backend.cache task.key = some task.generation

def FillFinished (self : System) (fill : Nat) : Prop :=
  ∃ task, self.fills[fill]? = some task ∧ task.position = .finished

/-- No fill, no invalidation and no clear is in progress. -/
structure Idle (system : System) : Prop where
  fills : ∀ fill ∈ system.fills, fill.position = .finished
  invalidations : ∀ keys ∈ system.invalidations, keys = []
  clear : system.backend.clearFence.clear = none ∨
    system.backend.clearFence.clear = some .completed

/-- The index knows the key of a cached entry, or the entry is not confirmed yet. -/
def AuthoritativeFor (self : System) (task : Fill) : Prop :=
  self.backend.cache task.key = some task.generation →
    (∃ generation, self.backend.index.Registered task.key generation) ∨
      task.position.unconfirmed = true

end System

section

variable {system taken final : System} {events : List Event}

theorem Sound.idle_registered (sound : Sound system) (idle : system.Idle)
    (cached : system.backend.cache key = some generation) :
    system.backend.index.Registered key generation := by
  rcases sound.accounted.cached cached with registered | ⟨fill, member, held⟩ | ⟨keys, member, pending⟩
    | clearing
  · exact registered
  · have finished := idle.fills fill member
    exact absurd held (Fill.not_in_hand (by rw [finished]; rfl) (by rw [finished]; rfl)
      (by rw [finished]; rfl))
  · rw [idle.invalidations keys member] at pending
    cases pending
  · rcases idle.clear with clear | clear <;> rcases clearing with clearing | ⟨keys, clearing⟩ <;>
      cases clear.symm.trans clearing

theorem taken_by_invalidation (found : system.fills[number]? = some task)
    (past : task.position.pastRegistration = true)
    (stepped : system.step (.invalidateObject task.key.identity) = some taken) :
    Taken taken number task task.key task.generation := by
  obtain rfl := Option.some.inj stepped
  refine ⟨found, rfl, rfl, past, fun registered => ?_⟩
  have left := ((remove_identity_takes _).left _ _).1 registered
  simp at left

theorem expiring_by_invalidation (authoritative : system.AuthoritativeFor task)
    (stepped : system.step (.invalidateObject task.key.identity) = some taken) :
    Expiring taken system.invalidations.length task task.key task.generation := by
  obtain rfl := Option.some.inj stepped
  intro cached
  refine (authoritative cached).imp_left ?_
  rintro ⟨generation, registered⟩
  refine ⟨_, getElem?_concat_length, ?_⟩
  exact (remove_identity_takes _).handedOut _ _ registered (by simp)

theorem taken_run {invalidation : Nat}
    (sound : Sound taken) (took : Taken taken number task key generation)
    (ran : run System.step taken events = some final) :
    Sound final ∧ ∃ after, Taken final number after key generation ∧
      (Expiring taken invalidation task key generation →
        Expiring final invalidation after key generation) := by
  refine Library.run_keeps_under
    (fun system => ∃ after, Taken system number after key generation ∧
      (Expiring taken invalidation task key generation →
        Expiring system invalidation after key generation))
    Sound.step ?_ sound ⟨task, took, id⟩ ran
  rintro system next event sound ⟨after, still, expires⟩ stepped
  obtain ⟨later, takenStill, expiring⟩ := (System.step_system stepped).taken sound.numbered still
  exact ⟨later, takenStill, fun initially => expiring (expires initially)⟩

theorem gone_after_clear (sound : Sound system)
    (begun : ∃ task, system.fills[number]? = some task ∧ task.position ≠ .leading)
    (finished : system.step .finishClear = some taken) : ∃ task, Gone taken number task := by
  obtain ⟨task, found, notLeading⟩ := begun
  change system.finishClear = some taken at finished
  rw [System.finishClear] at finished
  split at finished <;> cases finished
  case h_1 swept =>
  have idle := sound.fenced.quiesced (by simp [swept]) (by simp [swept])
  have unguarded := sound.fenced.none_guarded idle (mem_of_getElem? found)
  refine ⟨task, found, ?_, by simp [sound.accounted.swept (.inl swept)]⟩
  cases stands : task.position <;> rw [stands] at unguarded <;>
    first | rfl | exact absurd stands notLeading | cases unguarded

theorem gone_run (sound : Sound taken) (gone : ∃ task, Gone taken number task)
    (ran : run System.step taken events = some final) : ∃ task, Gone final number task := by
  refine (Library.run_keeps_under (fun system => ∃ task, Gone system number task) Sound.step ?_
    sound gone ran).2
  rintro system next event sound ⟨task, gone⟩ stepped
  exact (System.step_system stepped).gone sound.numbered gone

theorem begun_run (begun : ∃ task, taken.fills[number]? = some task ∧ task.position ≠ .leading)
    (ran : run System.step taken events = some final) :
    ∃ task, final.fills[number]? = some task ∧ task.position ≠ .leading :=
  Library.run_keeps (fun before stepped => (System.step_system stepped).begun before) begun ran

end

/-- In every run: once nothing is in progress every cached key is registered
under its generation; an entry whose registration preceded an invalidation of
its object is gone once its fill and the invalidation have finished, if the index
was authoritative for it, and in any case once nothing is in progress; and after
a clear no entry of a fill that had registered before is ever cached. -/
theorem invalidated_bodies_leave {identityKeysMax : Nat} {events : List Event} {system : System}
    (ran : run System.step (System.new identityKeysMax) events = some system) :
    (system.Idle → ∀ key generation, system.backend.cache key = some generation →
      system.backend.index.Registered key generation) ∧
    (∀ (number : Nat) {task : Fill} {taken final : System} {later : List Event},
      system.fills[number]? = some task → task.position.pastRegistration = true →
      system.step (.invalidateObject task.key.identity) = some taken →
      run System.step taken later = some final →
        (system.AuthoritativeFor task → final.FillFinished number →
          final.invalidations[system.invalidations.length]? = some [] →
            ¬final.CachesEntryOf number) ∧
        (final.Idle → ¬final.CachesEntryOf number)) ∧
    (∀ (number : Nat) {task : Fill} {clearing cleared final : System} {waiting later : List Event},
      system.fills[number]? = some task → task.position ≠ .leading →
      run System.step system waiting = some clearing →
      clearing.step .finishClear = some cleared →
      run System.step cleared later = some final → ¬final.CachesEntryOf number) := by
  have sound := sound_run ran
  refine ⟨fun idle _ _ => sound.idle_registered idle, ?_, ?_⟩
  · intro number task taken final later found past stepped ranLater
    have took := taken_by_invalidation found past stepped
    obtain ⟨soundFinal, after, still, expires⟩ := taken_run (sound.step stepped) took ranLater
    constructor
    · rintro authoritative ⟨one, foundOne, finished⟩ removed ⟨two, foundTwo, cached⟩
      obtain rfl := Option.some.inj (still.found.symm.trans foundOne)
      obtain rfl := Option.some.inj (still.found.symm.trans foundTwo)
      rw [still.sameKey, still.sameGeneration] at cached
      rcases expires (expiring_by_invalidation authoritative stepped) cached with
        ⟨keys, foundKeys, pending⟩ | unconfirmed
      · rw [Option.some.inj (foundKeys.symm.trans removed)] at pending
        cases pending
      · rw [finished] at unconfirmed
        cases unconfirmed
    · rintro idle ⟨one, foundOne, cached⟩
      obtain rfl := Option.some.inj (still.found.symm.trans foundOne)
      rw [still.sameKey, still.sameGeneration] at cached
      exact still.unregistered (soundFinal.idle_registered idle cached)
  · intro number task clearing cleared final waiting later found notLeading waits finished ranLater
    rintro ⟨one, foundOne, cached⟩
    have soundClearing := Library.run_keeps Sound.step sound waits
    have begun := begun_run ⟨task, found, notLeading⟩ waits
    have goneNow := gone_after_clear soundClearing begun finished
    obtain ⟨two, gone⟩ := gone_run (soundClearing.step finished) goneNow ranLater
    obtain rfl := Option.some.inj (gone.found.symm.trans foundOne)
    exact gone.notCached cached

def sampleKey : Key := ⟨"bucket", "object", "null", "etag", 1, none, 0, .fullObjectPlainV1⟩

def sampleFill : List Event := .fillBody sampleKey :: List.replicate 11 (.advance 0)

/-- The state after a run that is possible. -/
def System.after (self : System) (events : List Event) : System :=
  (run System.step self events).getD self

theorem System.run_after {self : System} (possible : (run System.step self events).isSome = true) :
    run System.step self events = some (self.after events) := by
  obtain ⟨final, ran⟩ := Option.isSome_iff_exists.1 possible
  rw [System.after, ran, Option.getD_some]

theorem invalidated_fill_is_gone :
    ∃ system taken final,
      run System.step (System.new 16) sampleFill = some system ∧
      system.step (.invalidateObject sampleKey.identity) = some taken ∧
      run System.step taken [.removeKey 0] = some final ∧
      system.backend.cache sampleKey = some 1 ∧ ¬final.CachesEntryOf 0 := by
  have ran : run System.step (System.new 16) sampleFill =
    some ((System.new 16).after sampleFill) := System.run_after (by decide)
  refine ⟨_, _, _, ran, rfl, System.run_after (by decide), by decide, ?_⟩
  have found : ((System.new 16).after sampleFill).fills[0]? =
    some ⟨sampleKey, 0, 1, .finished⟩ := by decide
  refine ((invalidated_bodies_leave ran).2.1 0 found rfl rfl (System.run_after (by decide))).1 ?_ ?_ ?_
  · exact fun _ => .inl ⟨1, by decide⟩
  · exact ⟨⟨sampleKey, 0, 1, .finished⟩, by decide, rfl⟩
  · decide

/-- Two gaps. While a clear drains, an entry is cached and no longer registered,
with no fill and no invalidation in progress. And the second of two invalidations
finds nothing to take and is through while the first has yet to remove the entry. -/
theorem entry_outlives_second_invalidation :
    (∃ events system, run System.step (System.new 16) events = some system ∧
      (∀ fill ∈ system.fills, fill.position = .finished) ∧
      (∀ keys ∈ system.invalidations, keys = []) ∧
      system.backend.cache sampleKey = some 1 ∧
      ¬system.backend.index.Registered sampleKey 1) ∧
    (∃ events system task taken, run System.step (System.new 16) events = some system ∧
      system.fills[0]? = some task ∧ task.position.pastRegistration = true ∧
      system.step (.invalidateObject task.key.identity) = some taken ∧
      taken.FillFinished 0 ∧ taken.invalidations[system.invalidations.length]? = some [] ∧
      taken.CachesEntryOf 0) := by
  constructor
  · refine ⟨sampleFill ++ [.clear, .drain], _, System.run_after (by decide), ?_, ?_, ?_, ?_⟩
    all_goals decide
  · refine ⟨sampleFill ++ [.invalidateObject sampleKey.identity], _, ⟨sampleKey, 0, 1, .finished⟩,
      _, System.run_after (by decide), by decide, rfl, rfl, ?_, by decide, ?_⟩
    · exact ⟨⟨sampleKey, 0, 1, .finished⟩, by decide, rfl⟩
    · exact ⟨⟨sampleKey, 0, 1, .finished⟩, by decide, by decide⟩

end Rustfs.ObjectDataCache
