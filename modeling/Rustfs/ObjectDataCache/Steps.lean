import Rustfs.ObjectDataCache.MokaBackend

/-!
# What a step can do

Most steps of a fill read the shared state and move on (`Moves`). The others
each change one part of it: the fence, the index, the cache or the counter of
generations.
-/

namespace Rustfs.ObjectDataCache

open List Option

namespace Position

/-- Positions at which the fill holds a guard of the fence. -/
def guarded : Position → Bool
  | leading | leaving | finished => false
  | _ => true

/-- Positions from which the put of the fill is still ahead. -/
def mayPut : Position → Bool
  | leading | reserved | fenced | admitted | pruned | allocated | entered => true
  | evicting _ | publishing => true
  | _ => false

/-- Positions at which the entry of the fill may be in the cache. -/
def mayHold : Position → Bool
  | published | rechecked _ | undoing | released | finished => true
  | _ => false

/-- Positions of a fill whose entry is in the cache and which will take it out
again unless it finds itself registered. -/
def unconfirmed : Position → Bool
  | published | rechecked false | undoing => true
  | _ => false

/-- Positions between the registration of a key and the put. -/
def refilling : Position → Bool
  | evicting _ | publishing => true
  | _ => false

def victims : Position → List TrackedKey
  | evicting victims => victims
  | _ => []

/-- Positions at which the registration in the index is behind the fill. -/
def pastRegistration : Position → Bool
  | leading | reserved | fenced | admitted | pruned | allocated | entered => false
  | _ => true

/-- Positions at which the generation has been allocated. -/
def numbered : Position → Bool
  | allocated | entered | evicting _ | publishing | published | rechecked _ => true
  | undoing | undone | withdrawing => true
  | _ => false

end Position

/-- A fill moves on without a change of what is shared. -/
inductive Moves (backend : MokaBackend) (fill : Fill) : Position → Position → Prop
  | joined : Moves backend fill .reserved .released
  | led : Moves backend fill .reserved .fenced
  | admitted : Moves backend fill .fenced .admitted
  | refused : Moves backend fill .fenced .released
  | skipped : Moves backend fill .admitted .released
  | exhausted : Moves backend fill .pruned .released
  | entered : Moves backend fill .allocated .entered
  | shutOut : Moves backend fill .allocated .released
  | confirmed : Moves backend fill (.evicting []) .publishing
  | fencedOff (stale : fill.isCurrent backend = false) : Moves backend fill (.evicting []) .released
  | rechecked (indexed : Bool)
      (seen : indexed = true ↔ backend.index.Registered fill.key fill.generation) :
      Moves backend fill .published (.rechecked indexed)
  | inserted : Moves backend fill (.rechecked true) .released
  | raced (indexed : Bool) : Moves backend fill (.rechecked indexed) .undoing
  | withdrawing : Moves backend fill .undone .withdrawing
  | leftToDrain : Moves backend fill .undone .released

inductive FillStep (backend : MokaBackend) (fill : Fill) : MokaBackend → Fill → Prop
  | move {position : Position} (moves : Moves backend fill fill.position position) :
      FillStep backend fill backend (fill.moveTo position)
  | register {fence : ClearFence} {guardGeneration : Nat} (stands : fill.position = .leading)
      (registered : backend.clearFence.tryRegisterFill = some (fence, some guardGeneration)) :
      FillStep backend fill { backend with clearFence := fence }
        { fill with guardGeneration, position := .fenced }
  | turnAway {fence : ClearFence} (stands : fill.position = .leading)
      (refused : backend.clearFence.tryRegisterFill = some (fence, none)) :
      FillStep backend fill { backend with clearFence := fence } (fill.moveTo .finished)
  | prune {keyExists : Key → Bool} (stands : fill.position = .admitted)
      (keepsCached : ∀ key, (backend.cache key).isSome → keyExists key = true) :
      FillStep backend fill
        { backend with index := backend.index.pruneMissing fill.key.identity keyExists }
        (fill.moveTo .pruned)
  | allocate (stands : fill.position = .pruned) :
      FillStep backend fill { backend with nextGeneration := backend.nextGeneration + 1 }
        { fill with generation := backend.nextGeneration + 1, position := .allocated }
  | insert (stands : fill.position = .entered) :
      FillStep backend fill
        { backend with
          index := (backend.index.insertGeneration fill.key.identity fill.key fill.generation).1 }
        (fill.moveTo (.evicting
          (backend.index.insertGeneration fill.key.identity fill.key fill.generation).2.evicted))
  | removeVictim {victim : TrackedKey} {victims : List TrackedKey}
      (stands : fill.position = .evicting (victim :: victims)) :
      FillStep backend fill (backend.removeExpected victim) (fill.moveTo (.evicting victims))
  | put (stands : fill.position = .publishing) :
      FillStep backend fill (backend.put fill.key fill.generation) (fill.moveTo .published)
  | undo (stands : fill.position = .undoing) :
      FillStep backend fill (backend.remove fill.key) (fill.moveTo .undone)
  | withdraw (stands : fill.position = .withdrawing) :
      FillStep backend fill
        { backend with
          index := backend.index.removeGeneration fill.key.identity fill.key fill.generation }
        (fill.moveTo .released)
  | leave (stands : fill.position = .leaving) : FillStep backend fill backend (fill.moveTo .finished)
  | dropGuard (stands : fill.position = .released) :
      FillStep backend fill { backend with clearFence := backend.clearFence.dropGuard }
        (fill.moveTo .finished)
  | cancel (stands : fill.position = .admitted ∨ fill.position = .pruned) :
      FillStep backend fill { backend with clearFence := backend.clearFence.dropGuard }
        (fill.moveTo .leaving)

theorem checked_add_some {value next : Nat} (added : checkedAdd value = some next) :
    next = value + 1 := by
  rw [checkedAdd] at added
  split at added <;> cases added
  rfl

namespace Fill

variable {hasInflight : Key → Bool} {backend : MokaBackend} {fill : Fill} {moved : MokaBackend × Fill}

theorem step_moving {position : Position} (moves : Moves backend fill fill.position position)
    (same : some (backend, fill.moveTo position) = some moved) :
    FillStep backend fill moved.1 moved.2 := by
  cases same
  exact .move moves

theorem advance_step (advanced : fill.advance hasInflight backend = some moved) :
    FillStep backend fill moved.1 moved.2 := by
  obtain ⟨key, guardGeneration, generation, position⟩ := fill
  cases position with
  | leading =>
    simp only [advance, map_eq_some_iff] at advanced
    obtain ⟨⟨fence, guarded⟩, registered, outcome⟩ := advanced
    cases guarded <;> cases outcome
    · exact .turnAway rfl registered
    · exact .register rfl registered
  | reserved =>
    simp only [advance] at advanced
    split at advanced
    · exact step_moving .joined advanced
    · exact step_moving .led advanced
  | fenced =>
    simp only [advance] at advanced
    split at advanced
    · exact step_moving .admitted advanced
    · exact step_moving .refused advanced
  | admitted =>
    cases advanced
    exact .prune rfl fun key cached => by simp [cached]
  | pruned =>
    simp only [advance] at advanced
    split at advanced
    case h_1 => exact step_moving .exhausted advanced
    case h_2 next added =>
      obtain rfl := checked_add_some added
      cases advanced
      exact .allocate rfl
  | allocated =>
    simp only [advance] at advanced
    split at advanced
    · exact step_moving .entered advanced
    · exact step_moving .shutOut advanced
  | entered =>
    cases advanced
    exact .insert rfl
  | evicting victims =>
    cases victims with
    | nil =>
      simp only [advance] at advanced
      split at advanced
      case isTrue => exact step_moving .confirmed advanced
      case isFalse stale => exact step_moving (.fencedOff (by simpa using stale)) advanced
    | cons victim victims =>
      cases advanced
      exact .removeVictim rfl
  | publishing =>
    cases advanced
    exact .put rfl
  | published =>
    exact step_moving (.rechecked _ StarshardIdentityIndex.contains_generation_iff) advanced
  | rechecked indexed =>
    simp only [advance] at advanced
    split at advanced
    case isTrue confirmed =>
      obtain rfl : indexed = true := by simp_all
      exact step_moving .inserted advanced
    case isFalse => exact step_moving (.raced indexed) advanced
  | undoing =>
    cases advanced
    exact .undo rfl
  | undone =>
    simp only [advance] at advanced
    split at advanced
    · exact step_moving .withdrawing advanced
    · exact step_moving .leftToDrain advanced
  | withdrawing =>
    cases advanced
    exact .withdraw rfl
  | leaving =>
    cases advanced
    exact .leave rfl
  | released =>
    cases advanced
    exact .dropGuard rfl
  | finished => cases advanced

theorem skip_step {skipped : Fill} (skips : fill.skip = some skipped) :
    FillStep backend fill backend skipped := by
  obtain ⟨key, guardGeneration, generation, position⟩ := fill
  cases position <;> cases skips
  exact .move .skipped

theorem cancel_step (cancelled : fill.cancel backend = some moved) :
    FillStep backend fill moved.1 moved.2 := by
  obtain ⟨key, guardGeneration, generation, position⟩ := fill
  cases position <;> cases cancelled
  · exact .move .joined
  · exact .cancel (.inl rfl)
  · exact .cancel (.inr rfl)

end Fill

inductive SystemStep (system : System) : System → Prop
  | fill {number : Nat} {task moved : Fill} {backend : MokaBackend}
      (found : system.fills[number]? = some task)
      (taken : FillStep system.backend task backend moved) :
      SystemStep system (system.moveFill number (backend, moved))
  | reserve {fence : ClearFence} {guardGeneration : Nat} (key : Key)
      (registered :
        system.backend.clearFence.tryRegisterFill = some (fence, some guardGeneration)) :
      SystemStep system
        { system with
          backend := { system.backend with clearFence := fence }
          fills := system.fills ++ [⟨key, guardGeneration, 0, .reserved⟩] }
  | refuse {fence : ClearFence}
      (refused : system.backend.clearFence.tryRegisterFill = some (fence, none)) :
      SystemStep system { system with backend := { system.backend with clearFence := fence } }
  | lead (key : Key) :
      SystemStep system { system with fills := system.fills ++ [⟨key, 0, 0, .leading⟩] }
  | join : SystemStep system system
  | invalidate {index : StarshardIdentityIndex} {keys : List Key} {predicate : Identity → Bool}
      (taken : system.backend.index.Takes index keys predicate) :
      SystemStep system (system.beginInvalidation (index, keys))
  | removeKey {number : Nat} {key : Key} {keys : List Key}
      (found : system.invalidations[number]? = some (key :: keys)) :
      SystemStep system
        { system with
          backend := system.backend.remove key
          invalidations := system.invalidations.set number keys }
  | evict {key : Key} {generation : Nat} (cached : system.backend.cache key = some generation) :
      SystemStep system
        { system with
          backend := system.backend.remove key
          notices := system.notices ++ [⟨key, generation⟩] }
  | deliver {number : Nat} {evicted : TrackedKey} (found : system.notices[number]? = some evicted) :
      SystemStep system
        { system with
          backend :=
            { system.backend with
              index := system.backend.index.removeGeneration evicted.key.identity evicted.key
                evicted.generation }
          notices := system.notices.eraseIdx number }
  | clear :
      SystemStep system
        { system with
          backend := { system.backend with clearFence := system.backend.clearFence.beginClear } }
  | drain {index : StarshardIdentityIndex} {keys : List Key}
      (waiting : system.backend.clearFence.clear = some .waiting)
      (quiesced : system.backend.clearFence.activeFills = 0)
      (taken : system.backend.index.Takes index keys fun _ => true) :
      SystemStep system
        ({ system with backend := { system.backend with index } }.setClear (.draining keys))
  | removeDrained {key : Key} {keys : List Key}
      (draining : system.backend.clearFence.clear = some (.draining (key :: keys))) :
      SystemStep system
        ({ system with backend := system.backend.remove key }.setClear (.draining keys))
  | sweep (drained : system.backend.clearFence.clear = some (.draining [])) :
      SystemStep system
        ({ system with backend := { system.backend with cache := fun _ => none } }.setClear .swept)
  | finishClear (swept : system.backend.clearFence.clear = some .swept) :
      SystemStep system
        { system with
          backend := { system.backend with clearFence := system.backend.clearFence.finishClear } }

namespace System

variable {system next : System}

theorem moved_step {fill : Nat} {outcome : Fill → Option (MokaBackend × Fill)}
    (steps : ∀ {task : Fill} {moved : MokaBackend × Fill}, outcome task = some moved →
      FillStep system.backend task moved.1 moved.2)
    (moves : ((system.fills[fill]?).bind fun task => (outcome task).map (system.moveFill fill)) =
      some next) : SystemStep system next := by
  obtain ⟨task, found, advanced⟩ := bind_eq_some_iff.1 moves
  obtain ⟨moved, outcome, rfl⟩ := map_eq_some_iff.1 advanced
  exact .fill found (steps outcome)

theorem reserve_body_step {key : Key} (reserved : system.reserveBody key = some next) :
    SystemStep system next := by
  obtain ⟨⟨fence, guarded⟩, registered, outcome⟩ := map_eq_some_iff.1 reserved
  cases guarded <;> cases outcome
  · exact .refuse registered
  · exact .reserve key registered

theorem fill_body_step (key : Key) : SystemStep system (system.fillBody key) := by
  rw [fillBody]
  split
  · exact .join
  · exact .lead key

theorem remove_key_step {invalidation : Nat} (removed : system.removeKey invalidation = some next) :
    SystemStep system next := by
  rw [removeKey] at removed
  split at removed <;> cases removed
  exact .removeKey ‹_›

theorem drain_step (drained : system.drain = some next) : SystemStep system next := by
  rw [drain] at drained
  split at drained <;> cases drained
  exact .drain ‹_› ‹_› (StarshardIdentityIndex.remove_matching_takes _)

theorem remove_drained_step (removed : system.removeDrained = some next) :
    SystemStep system next := by
  rw [removeDrained] at removed
  split at removed <;> cases removed
  exact .removeDrained ‹_›

theorem sweep_step (swept : system.sweep = some next) : SystemStep system next := by
  rw [sweep] at swept
  split at swept <;> cases swept
  exact .sweep ‹_›

theorem finish_clear_step (finished : system.finishClear = some next) : SystemStep system next := by
  rw [finishClear] at finished
  split at finished <;> cases finished
  exact .finishClear ‹_›

theorem step_system {event : Event} (stepped : system.step event = some next) :
    SystemStep system next := by
  cases event with
  | reserveBody key => exact reserve_body_step stepped
  | fillBody key =>
    cases stepped
    exact fill_body_step key
  | advance fill => exact moved_step Fill.advance_step stepped
  | skip fill =>
    obtain ⟨task, found, skipping⟩ := bind_eq_some_iff.1 stepped
    obtain ⟨skipped, skips, rfl⟩ := map_eq_some_iff.1 skipping
    exact .fill found (Fill.skip_step skips)
  | cancel fill => exact moved_step Fill.cancel_step stepped
  | invalidateObject identity =>
    cases stepped
    exact .invalidate (StarshardIdentityIndex.remove_identity_takes identity)
  | invalidatePrefix bucket objectPrefix | invalidateBucket bucket =>
    cases stepped
    exact .invalidate (StarshardIdentityIndex.remove_matching_takes _)
  | removeKey invalidation => exact remove_key_step stepped
  | evict key =>
    obtain ⟨generation, cached, rfl⟩ := map_eq_some_iff.1 stepped
    exact .evict cached
  | deliver notice =>
    obtain ⟨evicted, found, rfl⟩ := map_eq_some_iff.1 stepped
    exact .deliver found
  | clear =>
    cases stepped
    exact .clear
  | drain => exact drain_step stepped
  | removeDrained => exact remove_drained_step stepped
  | sweep => exact sweep_step stepped
  | finishClear => exact finish_clear_step stepped

end System

namespace ClearFence

variable {self fence : ClearFence} {generation : Nat}

theorem try_register_some (registered : self.tryRegisterFill = some (fence, some generation)) :
    self.clear = none ∧ self.generation = some generation ∧
      self.activeFills + 1 ≤ maxHandles ∧
        fence = { self with activeFills := self.activeFills + 1 } := by
  rw [tryRegisterFill] at registered
  split at registered
  case isTrue => cases registered
  case isFalse opened =>
    split at registered
    case h_1 => cases registered
    case h_2 current known =>
      split at registered
      case h_1 => cases registered
      case h_2 activeFills added =>
        obtain rfl := checked_add_some added
        split at registered <;> cases registered
        exact ⟨by simpa using opened, known, ‹_›, rfl⟩

theorem try_register_none (bounded : self.activeFills ≤ maxHandles)
    (refused : self.tryRegisterFill = some (fence, none)) : fence = self := by
  rw [tryRegisterFill] at refused
  split at refused
  case isTrue =>
    cases refused
    rfl
  case isFalse =>
    split at refused
    case h_1 =>
      cases refused
      rfl
    case h_2 =>
      split at refused
      case h_1 overflows =>
        rw [checkedAdd, if_pos] at overflows
        · cases overflows
        · rw [maxHandles] at bounded
          omega
      case h_2 => split at refused <;> cases refused

end ClearFence

theorem Moves.guarded {backend : MokaBackend} {fill : Fill} {before after : Position}
    (moves : Moves backend fill before after) : before.guarded = true ∧ after.guarded = true := by
  cases moves <;> exact ⟨rfl, rfl⟩

/-- The three ways in which a step of a fill treats the fence: not at all, by
registering, or by dropping its guard. -/
theorem FillStep.fence {backend after : MokaBackend} {fill moved : Fill}
    (taken : FillStep backend fill after moved)
    (bounded : backend.clearFence.activeFills ≤ ClearFence.maxHandles) :
    (after.clearFence = backend.clearFence ∧ moved.position.guarded = fill.position.guarded ∧
        moved.guardGeneration = fill.guardGeneration) ∨
      (fill.position.guarded = false ∧ moved.position.guarded = true ∧
        backend.clearFence.tryRegisterFill = some (after.clearFence, some moved.guardGeneration)) ∨
      (fill.position.guarded = true ∧ moved.position.guarded = false ∧
        after.clearFence = backend.clearFence.dropGuard) := by
  cases taken with
  | move moves =>
    have guarded := moves.guarded
    exact .inl ⟨rfl, guarded.2.trans guarded.1.symm, rfl⟩
  | register stands registered => exact .inr (.inl ⟨by rw [stands]; rfl, rfl, registered⟩)
  | turnAway stands refused =>
    exact .inl ⟨ClearFence.try_register_none bounded refused, by rw [stands]; rfl, rfl⟩
  | dropGuard stands => exact .inr (.inr ⟨by rw [stands]; rfl, rfl, rfl⟩)
  | cancel stands =>
    refine .inr (.inr ⟨?_, rfl, rfl⟩)
    rcases stands with stands | stands <;> rw [stands] <;> rfl
  | removeVictim stands =>
    refine .inl ⟨?_, by rw [stands]; rfl, rfl⟩
    rw [MokaBackend.removeExpected]
    split <;> rfl
  | prune stands | allocate stands | insert stands | put stands | undo stands | withdraw stands
  | leave stands => exact .inl ⟨rfl, by rw [stands]; rfl, rfl⟩

theorem count_set {Task : Type} {tasks : List Task} {number : Nat} {task : Task}
    (found : tasks[number]? = some task) (moved : Task) (chosen : Task → Bool) :
    (tasks.set number moved).countP chosen + (if chosen task then 1 else 0) =
      tasks.countP chosen + if chosen moved then 1 else 0 := by
  obtain ⟨within, rfl⟩ := List.getElem?_eq_some_iff.1 found
  rw [countP_set within]
  split
  case isTrue counted =>
    have positive : 0 < tasks.countP chosen :=
      countP_pos_iff.2 ⟨_, getElem_mem within, counted⟩
    omega
  case isFalse => omega

structure Fenced (fence : ClearFence) (fills : List Fill) : Prop where
  counted : fence.activeFills = fills.countP fun fill => fill.position.guarded
  bounded : fence.activeFills ≤ ClearFence.maxHandles
  current : fence.clear = none → ∀ fill ∈ fills, fill.position.guarded = true →
    fence.generation = some fill.guardGeneration
  quiesced : fence.clear ≠ none → fence.clear ≠ some .waiting → fence.activeFills = 0

namespace Fenced

variable {fence after : ClearFence} {fills : List Fill} {fill moved : Fill} {number generation : Nat}

theorem fenced_new : Fenced ClearFence.new [] where
  counted := rfl
  bounded := Nat.zero_le _
  current := by simp
  quiesced _ _ := rfl

section

variable (fenced : Fenced fence fills)

include fenced

theorem none_guarded (idle : fence.activeFills = 0)
    (member : fill ∈ fills) : fill.position.guarded = false := by
  have inactive := fenced.counted.symm.trans idle
  rw [countP_eq_zero] at inactive
  simpa using inactive fill member

theorem some_active (member : fill ∈ fills)
    (guarded : fill.position.guarded = true) : 0 < fence.activeFills := by
  rw [fenced.counted, countP_pos_iff]
  exact ⟨fill, member, guarded⟩

theorem waiting_of_stale (member : fill ∈ fills) (guarded : fill.position.guarded = true)
    (stale : fence.isCurrent fill.guardGeneration = false) : fence.clear = some .waiting := by
  have active := fenced.some_active member guarded
  by_contra notWaiting
  have installed : fence.clear ≠ none := by
    intro absent
    have current := fenced.current absent fill member guarded
    simp [ClearFence.isCurrent, absent, current] at stale
  exact absurd (fenced.quiesced installed notWaiting) (Nat.ne_of_gt active)

theorem register {others : List Fill}
    (registered : fence.tryRegisterFill = some (after, some generation))
    (counted : (others.countP fun fill => fill.position.guarded) =
      (fills.countP fun fill => fill.position.guarded) + 1)
    (guards : ∀ fill ∈ others, fill.guardGeneration = generation ∨ fill ∈ fills) :
    Fenced after others := by
  obtain ⟨absent, current, bounded, rfl⟩ := ClearFence.try_register_some registered
  refine ⟨?_, bounded, ?_, fun installed => absurd absent installed⟩
  · rw [counted, ← fenced.counted]
  · intro _ fill member guarded
    rcases guards fill member with same | member
    · exact same ▸ current
    · exact fenced.current absent fill member guarded

theorem lead (unguarded : fill.position.guarded = false) : Fenced fence (fills ++ [fill]) where
  counted := by simp [fenced.counted, unguarded]
  bounded := fenced.bounded
  current absent one member guarded := by
    rcases mem_append.1 member with member | new
    · exact fenced.current absent one member guarded
    · rw [mem_singleton.1 new, unguarded] at guarded
      cases guarded
  quiesced := fenced.quiesced

theorem keep (found : fills[number]? = some fill)
    (sameGuarded : moved.position.guarded = fill.position.guarded)
    (sameGuard : moved.guardGeneration = fill.guardGeneration) :
    Fenced fence (fills.set number moved) where
  counted := by
    have counts := count_set found moved fun fill => fill.position.guarded
    rw [sameGuarded] at counts
    rw [fenced.counted]
    omega
  bounded := fenced.bounded
  current absent one member guarded := by
    rcases mem_or_eq_of_mem_set member with member | rfl
    · exact fenced.current absent one member guarded
    · rw [sameGuard]
      exact fenced.current absent fill (mem_of_getElem? found) (sameGuarded ▸ guarded)
  quiesced := fenced.quiesced

theorem dropGuard (found : fills[number]? = some fill)
    (before : fill.position.guarded = true) (unguarded : moved.position.guarded = false) :
    Fenced fence.dropGuard (fills.set number moved) := by
  have counts := count_set found moved fun fill => fill.position.guarded
  simp only [before, unguarded, if_true, Bool.false_eq_true, if_false] at counts
  obtain ⟨left, active⟩ : ∃ left, fence.activeFills = left + 1 :=
    Nat.exists_eq_succ_of_ne_zero
      (Nat.ne_of_gt (fenced.some_active (mem_of_getElem? found) before))
  have dropped : fence.dropGuard = { fence with activeFills := left } := by
    rw [ClearFence.dropGuard, active]
  have bounded := fenced.bounded
  rw [dropped]
  refine ⟨?_, by rw [active] at bounded; exact Nat.le_of_succ_le bounded, ?_, ?_⟩
  · have counted := fenced.counted
    simp only
    omega
  · intro absent one member guarded
    rcases mem_or_eq_of_mem_set member with member | rfl
    · exact fenced.current absent one member guarded
    · rw [unguarded] at guarded
      cases guarded
  · intro installed notWaiting
    have quiet := fenced.quiesced installed notWaiting
    omega

end

theorem fill_step {backend later : MokaBackend} (fenced : Fenced backend.clearFence fills)
    (found : fills[number]? = some fill) (taken : FillStep backend fill later moved) :
    Fenced later.clearFence (fills.set number moved) := by
  rcases taken.fence fenced.bounded with
    ⟨sameFence, sameGuarded, sameGuard⟩ | ⟨before, after, registered⟩ | ⟨before, after, dropped⟩
  · rw [sameFence]
    exact fenced.keep found sameGuarded sameGuard
  · have counts := count_set found moved fun fill => fill.position.guarded
    simp only [before, after, if_true, Bool.false_eq_true, if_false] at counts
    refine fenced.register registered counts fun one member => ?_
    exact (mem_or_eq_of_mem_set member).symm.imp_left fun same => by rw [same]
  · rw [dropped]
    exact fenced.dropGuard found before after

theorem setClear (fenced : Fenced fence fills) (idle : fence.activeFills = 0)
    (operation : ClearOperation) : Fenced { fence with clear := some operation } fills where
  counted := fenced.counted
  bounded := fenced.bounded
  current absent := by cases absent
  quiesced _ _ := idle

theorem beginClear (fenced : Fenced fence fills) : Fenced fence.beginClear fills := by
  rw [ClearFence.beginClear]
  split
  · exact fenced
  · exact ⟨fenced.counted, fenced.bounded, by simp, fun _ notWaiting => absurd rfl notWaiting⟩

theorem finishClear (fenced : Fenced fence fills) (idle : fence.activeFills = 0) :
    Fenced fence.finishClear fills := by
  rw [ClearFence.finishClear]
  split
  · refine ⟨fenced.counted, fenced.bounded, ?_, fun installed => absurd rfl installed⟩
    intro _ fill member guarded
    rw [fenced.none_guarded idle member] at guarded
    cases guarded
  · exact ⟨fenced.counted, fenced.bounded, by simp, fun _ _ => idle⟩

end Fenced

theorem SystemStep.fenced {system next : System} (stepped : SystemStep system next)
    (fenced : Fenced system.backend.clearFence system.fills) :
    Fenced next.backend.clearFence next.fills := by
  cases stepped with
  | fill found taken => exact fenced.fill_step found taken
  | reserve key registered =>
    refine fenced.register registered (by simp [Position.guarded]) fun one member => ?_
    rcases mem_append.1 member with member | new
    · exact .inr member
    · exact .inl (by rw [mem_singleton.1 new])
  | refuse refused =>
    rw [ClearFence.try_register_none fenced.bounded refused]
    exact fenced
  | lead key => exact fenced.lead rfl
  | join | invalidate | removeKey | evict | deliver => exact fenced
  | clear => exact fenced.beginClear
  | drain waiting quiesced => exact fenced.setClear quiesced _
  | removeDrained draining =>
    exact fenced.setClear (fenced.quiesced (by simp [draining]) (by simp [draining])) _
  | sweep drained =>
    exact fenced.setClear (fenced.quiesced (by simp [drained]) (by simp [drained])) _
  | finishClear swept =>
    exact fenced.finishClear (fenced.quiesced (by simp [swept]) (by simp [swept]))

end Rustfs.ObjectDataCache
