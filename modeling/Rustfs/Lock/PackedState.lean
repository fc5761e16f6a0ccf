import Rustfs.Library.BitField
import Rustfs.Lock.ObjectLock

/-!
# The word of a lock

`AtomicLockState` and `ObjectLockState` of `lock/src/fast_lock/state.rs`, with the word
as the code has it: the writer flag in bit 0, the number of readers in bits 8 to 15, the
readers that wait in bits 16 to 31 and the writers that wait in bits 32 to 47. A failed
`compare_exchange_weak` only reads the word again, so an operation is one step. The times
of the last access and of the holds are left out.
-/

namespace Rustfs.Lock

open Library.BitField

namespace LockWord

def writerFlagMask : BitVec 64 := 0x1#64

def readersShift : Nat := 8

def readersMask : BitVec 64 := 0xFF#64 <<< readersShift

def readersWaitingShift : Nat := 16

def readersWaitingMask : BitVec 64 := 0xFFFF#64 <<< readersWaitingShift

def writersWaitingShift : Nat := 32

def writersWaitingMask : BitVec 64 := 0xFFFF#64 <<< writersWaitingShift

def noWriterAndNoWaitingWriters : BitVec 64 := writerFlagMask ||| writersWaitingMask

def readersCount (state : BitVec 64) : BitVec 8 :=
  ((state &&& readersMask) >>> readersShift).setWidth 8

def readersWaiting (state : BitVec 64) : BitVec 16 :=
  ((state &&& readersWaitingMask) >>> readersWaitingShift).setWidth 16

def writersWaiting (state : BitVec 64) : BitVec 16 :=
  ((state &&& writersWaitingMask) >>> writersWaitingShift).setWidth 16

def tryAcquireShared (current : BitVec 64) : Option (BitVec 64) :=
  if current &&& noWriterAndNoWaitingWriters ≠ 0 then none
  else if readersCount current = 0xFF#8 then none
  else some (current + 1#64 <<< readersShift)

def tryAcquireExclusive (current : BitVec 64) : Option (BitVec 64) :=
  if current &&& (writerFlagMask ||| readersMask) ≠ 0 then none
  else some (current ||| writerFlagMask)

def releaseShared (current : BitVec 64) : Option (BitVec 64) :=
  if readersCount current = 0 then none else some (current - 1#64 <<< readersShift)

def releaseExclusive (current : BitVec 64) : Option (BitVec 64) :=
  if current &&& writerFlagMask = 0 then none else some (current &&& ~~~writerFlagMask)

def incWaiting (waiting : BitVec 64 → BitVec 16) (shift : Nat) (current : BitVec 64) :
    Option (BitVec 64) :=
  if waiting current = 0xFFFF#16 then none else some (current + 1#64 <<< shift)

def decWaiting (waiting : BitVec 64 → BitVec 16) (shift : Nat) (current : BitVec 64) : BitVec 64 :=
  if waiting current = 0 then current else current - 1#64 <<< shift

def incReadersWaiting : BitVec 64 → Option (BitVec 64) := incWaiting readersWaiting readersWaitingShift

def decReadersWaiting : BitVec 64 → BitVec 64 := decWaiting readersWaiting readersWaitingShift

def incWritersWaiting : BitVec 64 → Option (BitVec 64) := incWaiting writersWaiting writersWaitingShift

def decWritersWaiting : BitVec 64 → BitVec 64 := decWaiting writersWaiting writersWaitingShift

variable {word next : BitVec 64}

theorem readers_count_field (word : BitVec 64) : (readersCount word).toNat = field 8 8 word :=
  @to_nat_masked_shifted 64 8 8 (by decide) word

theorem readers_waiting_field (word : BitVec 64) : (readersWaiting word).toNat = field 16 16 word :=
  @to_nat_masked_shifted 64 16 16 (by decide) word

theorem writers_waiting_field (word : BitVec 64) : (writersWaiting word).toNat = field 32 16 word :=
  @to_nat_masked_shifted 64 32 16 (by decide) word

theorem no_writer_iff (word : BitVec 64) : word &&& writerFlagMask = 0 ↔ field 0 1 word = 0 :=
  @and_mask_eq_zero 64 0 1 (by decide) word

theorem no_readers_iff (word : BitVec 64) : word &&& readersMask = 0 ↔ field 8 8 word = 0 :=
  @and_mask_eq_zero 64 8 8 (by decide) word

/-- A counter of the word goes up by one, and no other bit changes. -/
structure Raises (shift width : Nat) (word next : BitVec 64) : Prop where
  only : OnlyField shift width word next
  value : field shift width next = field shift width word + 1

theorem try_acquire_shared_raises (acquired : tryAcquireShared word = some next) :
    Raises 8 8 word next ∧ field 0 1 word = 0 := by
  unfold tryAcquireShared noWriterAndNoWaitingWriters at acquired
  split at acquired
  · cases acquired
  · rename_i unblocked
    split at acquired
    · cases acquired
    · rename_i notFull
      cases acquired
      rw [not_not, and_or_eq_zero, no_writer_iff] at unblocked
      have room : field 8 8 word + 1 < 2 ^ 8 := by
        have bound := field_lt 8 8 word
        have different : field 8 8 word ≠ 255 := by
          rw [← readers_count_field]
          intro full
          exact notFull (BitVec.eq_of_toNat_eq full)
        omega
      obtain ⟨only, value⟩ := @add_unit 64 8 8 word (by decide) (by decide) room
      exact ⟨⟨only, value⟩, unblocked.1⟩

theorem try_acquire_exclusive_raises (acquired : tryAcquireExclusive word = some next) :
    Raises 0 1 word next ∧ field 8 8 word = 0 ∧ field 0 1 word = 0 := by
  unfold tryAcquireExclusive at acquired
  split at acquired
  · cases acquired
  · rename_i free
    cases acquired
    rw [not_not, and_or_eq_zero, no_writer_iff, no_readers_iff] at free
    have room : field 0 1 word + 1 < 2 ^ 1 := by
      rw [free.1]
      decide
    obtain ⟨only, value⟩ := @add_unit 64 0 1 word (by decide) (by decide) room
    rw [← @or_unit 64 0 word (by decide) free.1] at only value
    exact ⟨⟨only, value⟩, free.2, free.1⟩

theorem release_shared_lowers (released : releaseShared word = some next) : Raises 8 8 next word := by
  unfold releaseShared at released
  split at released
  · cases released
  · rename_i held
    cases released
    have positive : 0 < field 8 8 word := by
      rw [← readers_count_field]
      exact Nat.pos_of_ne_zero fun empty => held (BitVec.eq_of_toNat_eq empty)
    obtain ⟨only, value⟩ := @sub_unit 64 8 8 word (by decide) positive
    exact ⟨only.symm, value⟩

theorem release_exclusive_lowers (released : releaseExclusive word = some next) :
    Raises 0 1 next word := by
  unfold releaseExclusive at released
  split at released
  · cases released
  · rename_i held
    cases released
    rw [no_writer_iff] at held
    obtain ⟨only, value⟩ := @sub_unit 64 0 1 word (by decide) (Nat.pos_of_ne_zero held)
    rw [← @and_not_unit 64 0 word (by decide) held] at only value
    exact ⟨only.symm, value⟩

section

variable {waiting : BitVec 64 → BitVec 16} {shift : Nat}
  (reads : ∀ word, (waiting word).toNat = field shift 16 word) (fits : shift + 16 ≤ 64)

include reads fits

theorem inc_waiting_raises
    (raised : incWaiting waiting shift word = some next) : Raises shift 16 word next := by
  unfold incWaiting at raised
  split at raised
  · cases raised
  · rename_i notFull
    cases raised
    have room : field shift 16 word + 1 < 2 ^ 16 := by
      have bound := field_lt shift 16 word
      have different : field shift 16 word ≠ 65535 := by
        rw [← reads]
        intro full
        exact notFull (BitVec.eq_of_toNat_eq full)
      omega
    obtain ⟨only, value⟩ := @add_unit 64 shift 16 word fits (by omega) room
    exact ⟨only, value⟩

theorem dec_waiting_lowers (word : BitVec 64) : decWaiting waiting shift word = word ∨
      Raises shift 16 (decWaiting waiting shift word) word := by
  unfold decWaiting
  split
  · exact .inl rfl
  · rename_i nonzero
    have positive : 0 < field shift 16 word := by
      rw [← reads]
      exact Nat.pos_of_ne_zero fun empty => nonzero (BitVec.eq_of_toNat_eq empty)
    obtain ⟨only, value⟩ := @sub_unit 64 shift 16 word (by omega) positive
    exact .inr ⟨only.symm, value⟩

end

def unpack (word : BitVec 64) : AtomicLockState := ⟨decide (field 0 1 word ≠ 0), field 8 8 word⟩

theorem Raises.unpack_readers (raises : Raises 8 8 word next) :
    unpack next = { unpack word with readers := (unpack word).readers + 1 } := by
  unfold unpack
  rw [raises.value, raises.only.lower (by decide)]

theorem Raises.unpack_writer (raises : Raises 0 1 word next) :
    unpack word = ⟨false, field 8 8 word⟩ ∧ unpack next = ⟨true, field 8 8 word⟩ := by
  have bound := field_lt 0 1 next
  have value := raises.value
  have down : field 0 1 word = 0 := by omega
  unfold unpack
  rw [value, down, raises.only.higher (by decide)]
  exact ⟨rfl, rfl⟩

theorem Raises.unpack_waiting {shift : Nat} (raises : Raises shift 16 word next)
    (above : 16 ≤ shift) : unpack next = unpack word := by
  unfold unpack
  rw [raises.only.lower (by omega), raises.only.lower (by omega)]

theorem unpack_acquire_shared (acquired : tryAcquireShared word = some next) :
    (unpack word).tryAcquireShared = some (unpack next) := by
  obtain ⟨raises, noWriter⟩ := try_acquire_shared_raises acquired
  have bound := field_lt 8 8 next
  have value := raises.value
  have room : (unpack word).readers ≠ AtomicLockState.maxReaders := by
    change field 8 8 word ≠ 255
    omega
  rw [raises.unpack_readers]
  unfold AtomicLockState.tryAcquireShared
  rw [if_neg (by simp [unpack, noWriter]), if_neg room]

theorem unpack_acquire_exclusive (acquired : tryAcquireExclusive word = some next) :
    (unpack word).tryAcquireExclusive = some (unpack next) := by
  obtain ⟨raises, noReaders, _⟩ := try_acquire_exclusive_raises acquired
  obtain ⟨before, after⟩ := raises.unpack_writer
  rw [before, after, noReaders]
  rfl

theorem unpack_release_shared (word : BitVec 64) :
    (releaseShared word).map unpack = (unpack word).releaseShared := by
  cases released : releaseShared word with
  | none =>
    have empty : field 8 8 word = 0 := by
      unfold releaseShared at released
      split at released
      · rename_i zero
        rw [← readers_count_field, zero]
        rfl
      · cases released
    unfold AtomicLockState.releaseShared
    rw [if_pos (show (unpack word).readers = 0 from empty)]
    rfl
  | some next =>
    have before := (release_shared_lowers released).unpack_readers
    rw [before]
    rfl

theorem unpack_release_exclusive (word : BitVec 64) :
    (releaseExclusive word).map unpack = (unpack word).releaseExclusive := by
  cases released : releaseExclusive word with
  | none =>
    have empty : field 0 1 word = 0 := by
      unfold releaseExclusive at released
      split at released
      · rename_i zero
        exact (no_writer_iff word).1 zero
      · cases released
    unfold AtomicLockState.releaseExclusive
    rw [if_neg (by simp [unpack, empty])]
    rfl
  | some next =>
    obtain ⟨before, after⟩ := (release_exclusive_lowers released).unpack_writer
    rw [after, Option.map_some, before]
    rfl

end LockWord

variable {Owner : Type} [DecidableEq Owner]

structure PackedLockState (Owner : Type) where
  state : BitVec 64
  currentOwner : Option Owner
  sharedOwners : List (SharedOwnerEntry Owner)

inductive LockOperation (Owner : Type)
  | tryAcquireSharedFast (owner : Owner)
  | tryAcquireExclusiveFast (owner : Owner)
  | releaseShared (owner : Owner)
  | releaseExclusive (owner : Owner)
  | incReadersWaiting
  | decReadersWaiting
  | incWritersWaiting
  | decWritersWaiting

namespace PackedLockState

variable {lock : PackedLockState Owner}

def new : PackedLockState Owner := ⟨0, none, []⟩

def tryAcquireSharedFast (lock : PackedLockState Owner) (owner : Owner) :
    PackedLockState Owner × Bool :=
  match LockWord.tryAcquireShared lock.state with
  | none => (lock, false)
  | some state => ({ lock with state := state, sharedOwners := addShared owner lock.sharedOwners }, true)

def tryAcquireExclusiveFast (lock : PackedLockState Owner) (owner : Owner) :
    PackedLockState Owner × Bool :=
  match LockWord.tryAcquireExclusive lock.state with
  | none => (lock, false)
  | some state => ({ lock with state := state, currentOwner := some owner }, true)

def releaseShared (lock : PackedLockState Owner) (owner : Owner) : PackedLockState Owner × Bool :=
  match removeShared owner lock.sharedOwners with
  | none => (lock, false)
  | some (entry, left) =>
    match LockWord.releaseShared lock.state with
    | some state => ({ lock with state := state, sharedOwners := left }, true)
    | none => ({ lock with sharedOwners := ObjectLockState.restoreShared entry left }, false)

def releaseExclusive (lock : PackedLockState Owner) (owner : Owner) : PackedLockState Owner × Bool :=
  if lock.currentOwner = some owner then
    match LockWord.releaseExclusive lock.state with
    | some state => ({ lock with state := state, currentOwner := none }, true)
    | none => (lock, false)
  else (lock, false)

def step (lock : PackedLockState Owner) : LockOperation Owner → PackedLockState Owner
  | .tryAcquireSharedFast owner => (lock.tryAcquireSharedFast owner).1
  | .tryAcquireExclusiveFast owner => (lock.tryAcquireExclusiveFast owner).1
  | .releaseShared owner => (lock.releaseShared owner).1
  | .releaseExclusive owner => (lock.releaseExclusive owner).1
  | .incReadersWaiting => { lock with state := (LockWord.incReadersWaiting lock.state).getD lock.state }
  | .decReadersWaiting => { lock with state := LockWord.decReadersWaiting lock.state }
  | .incWritersWaiting => { lock with state := (LockWord.incWritersWaiting lock.state).getD lock.state }
  | .decWritersWaiting => { lock with state := LockWord.decWritersWaiting lock.state }

def steps (lock : PackedLockState Owner) (operations : List (LockOperation Owner)) :
    PackedLockState Owner :=
  operations.foldl step lock

/-- The bits of the counter an operation is about: where they start and how many they are. -/
def counter : LockOperation Owner → Nat × Nat
  | .tryAcquireSharedFast _ | .releaseShared _ => (8, 8)
  | .tryAcquireExclusiveFast _ | .releaseExclusive _ => (0, 1)
  | .incReadersWaiting | .decReadersWaiting => (16, 16)
  | .incWritersWaiting | .decWritersWaiting => (32, 16)

def raising : LockOperation Owner → Bool
  | .tryAcquireSharedFast _ | .tryAcquireExclusiveFast _ | .incReadersWaiting | .incWritersWaiting => true
  | .releaseShared _ | .releaseExclusive _ | .decReadersWaiting | .decWritersWaiting => false

/-- The word stays as it is, or the counter of the operation moves by one and no bit
outside of it changes. -/
def WithinCounter (operation : LockOperation Owner) (word next : BitVec 64) : Prop :=
  next = word ∨
    if raising operation then LockWord.Raises (counter operation).1 (counter operation).2 word next
    else LockWord.Raises (counter operation).1 (counter operation).2 next word

theorem step_within_counter (lock : PackedLockState Owner) (operation : LockOperation Owner) :
    WithinCounter operation lock.state (lock.step operation).state := by
  cases operation with
  | tryAcquireSharedFast owner =>
    dsimp only [step, tryAcquireSharedFast]
    cases acquired : LockWord.tryAcquireShared lock.state with
    | none => exact .inl rfl
    | some next => exact .inr (LockWord.try_acquire_shared_raises acquired).1
  | tryAcquireExclusiveFast owner =>
    dsimp only [step, tryAcquireExclusiveFast]
    cases acquired : LockWord.tryAcquireExclusive lock.state with
    | none => exact .inl rfl
    | some next => exact .inr (LockWord.try_acquire_exclusive_raises acquired).1
  | releaseShared owner =>
    dsimp only [step, releaseShared]
    cases removeShared owner lock.sharedOwners with
    | none => exact .inl rfl
    | some removed =>
      cases released : LockWord.releaseShared lock.state with
      | none => exact .inl rfl
      | some next => exact .inr (LockWord.release_shared_lowers released)
  | releaseExclusive owner =>
    dsimp only [step, releaseExclusive]
    split
    · cases released : LockWord.releaseExclusive lock.state with
      | none => exact .inl rfl
      | some next => exact .inr (LockWord.release_exclusive_lowers released)
    · exact .inl rfl
  | incReadersWaiting =>
    dsimp only [step]
    cases raised : LockWord.incReadersWaiting lock.state with
    | none => exact .inl rfl
    | some next =>
      have fits : 16 + 16 ≤ 64 := by decide
      exact .inr (LockWord.inc_waiting_raises LockWord.readers_waiting_field fits raised)
  | decReadersWaiting =>
    exact LockWord.dec_waiting_lowers LockWord.readers_waiting_field (by decide) lock.state
  | incWritersWaiting =>
    dsimp only [step]
    cases raised : LockWord.incWritersWaiting lock.state with
    | none => exact .inl rfl
    | some next =>
      have fits : 32 + 16 ≤ 64 := by decide
      exact .inr (LockWord.inc_waiting_raises LockWord.writers_waiting_field fits raised)
  | decWritersWaiting =>
    exact LockWord.dec_waiting_lowers LockWord.writers_waiting_field (by decide) lock.state

omit [DecidableEq Owner] in
theorem counter_apart (operation : LockOperation Owner) :
    (1 + 7 ≤ (counter operation).1 ∨ (counter operation).1 + (counter operation).2 ≤ 1) ∧
      (counter operation).1 + (counter operation).2 ≤ 48 := by
  cases operation <;> simp [counter]

omit [DecidableEq Owner] in
theorem within_counter_unused {operation : LockOperation Owner} {word next : BitVec 64}
    (within : WithinCounter operation word next) :
    field 1 7 next = field 1 7 word ∧ field 48 16 next = field 48 16 word := by
  rcases within with same | moved
  · rw [same]
    exact ⟨rfl, rfl⟩
  · have only : OnlyField (counter operation).1 (counter operation).2 word next := by
      split at moved
      · exact moved.only
      · exact moved.only.symm
    obtain ⟨low, high⟩ := counter_apart operation
    refine ⟨?_, only.higher high⟩
    rcases low with below | above
    · exact only.lower below
    · exact only.higher above

def view (lock : PackedLockState Owner) : ObjectLockState Owner :=
  ⟨LockWord.unpack lock.state, lock.currentOwner, lock.sharedOwners⟩

theorem view_release_shared (lock : PackedLockState Owner) (owner : Owner) :
    ((lock.releaseShared owner).1.view, (lock.releaseShared owner).2) = lock.view.releaseShared owner := by
  have word := LockWord.unpack_release_shared lock.state
  unfold releaseShared ObjectLockState.releaseShared view
  cases removeShared owner lock.sharedOwners with
  | none => rfl
  | some removed =>
    rw [← word]
    cases LockWord.releaseShared lock.state with
    | none => rfl
    | some next => rfl

theorem view_release_exclusive (lock : PackedLockState Owner) (owner : Owner) :
    ((lock.releaseExclusive owner).1.view, (lock.releaseExclusive owner).2) =
      lock.view.releaseExclusive owner := by
  have word := LockWord.unpack_release_exclusive lock.state
  unfold releaseExclusive ObjectLockState.releaseExclusive view
  split
  · rw [← word]
    cases LockWord.releaseExclusive lock.state with
    | none => rfl
    | some next => rfl
  · rfl

omit [DecidableEq Owner] in
theorem view_waiting {shift : Nat} {next : BitVec 64} (above : 16 ≤ shift)
    (moved : next = lock.state ∨ LockWord.Raises shift 16 lock.state next ∨
      LockWord.Raises shift 16 next lock.state) : { lock with state := next }.view = lock.view := by
  have word : LockWord.unpack next = LockWord.unpack lock.state := by
    rcases moved with same | raised | lowered
    · rw [same]
    · exact raised.unpack_waiting above
    · exact (lowered.unpack_waiting above).symm
  unfold view
  rw [word]

theorem step_consistent (consistent : lock.view.Consistent) (operation : LockOperation Owner) :
    (lock.step operation).view.Consistent := by
  have within := step_within_counter lock operation
  cases operation with
  | tryAcquireSharedFast owner =>
    dsimp only [step, tryAcquireSharedFast]
    cases acquired : LockWord.tryAcquireShared lock.state with
    | none => exact consistent
    | some next =>
      apply And.left (ObjectLockState.try_acquire_holds consistent _)
      · exact owner
      · exact .shared
      · unfold ObjectLockState.tryAcquire view
        dsimp only
        rw [LockWord.unpack_acquire_shared acquired]
        rfl
  | tryAcquireExclusiveFast owner =>
    dsimp only [step, tryAcquireExclusiveFast]
    cases acquired : LockWord.tryAcquireExclusive lock.state with
    | none => exact consistent
    | some next =>
      apply And.left (ObjectLockState.try_acquire_holds consistent _)
      · exact owner
      · exact .exclusive
      · unfold ObjectLockState.tryAcquire view
        dsimp only
        rw [LockWord.unpack_acquire_exclusive acquired]
        rfl
  | releaseShared owner =>
    have same : (lock.step (.releaseShared owner)).view = (lock.view.releaseShared owner).1 :=
      congrArg Prod.fst (view_release_shared lock owner)
    rw [same]
    exact (ObjectLockState.release_shared_holds consistent owner).1
  | releaseExclusive owner =>
    have same : (lock.step (.releaseExclusive owner)).view = (lock.view.releaseExclusive owner).1 :=
      congrArg Prod.fst (view_release_exclusive lock owner)
    rw [same]
    exact (ObjectLockState.release_exclusive_holds consistent owner).1
  | incReadersWaiting =>
    exact view_waiting (Nat.le_refl 16) (within.imp_right .inl) ▸ consistent
  | decReadersWaiting =>
    exact view_waiting (Nat.le_refl 16) (within.imp_right .inr) ▸ consistent
  | incWritersWaiting =>
    exact view_waiting (show 16 ≤ 32 by decide) (within.imp_right .inl) ▸ consistent
  | decWritersWaiting =>
    exact view_waiting (show 16 ≤ 32 by decide) (within.imp_right .inr) ▸ consistent

/-- The word and the tables of owners agree, and the bits of no counter are clear. This is what a
step keeps; the words of the code follow from it. -/
structure Kept (lock : PackedLockState Owner) : Prop where
  consistent : lock.view.Consistent
  unused : field 1 7 lock.state = 0 ∧ field 48 16 lock.state = 0

omit [DecidableEq Owner] in
theorem new_kept : (new : PackedLockState Owner).Kept where
  consistent := by
    have same : (new : PackedLockState Owner).view = .new := by
      unfold view new LockWord.unpack
      rw [field_zero, field_zero]
      rfl
    rw [same]
    exact ObjectLockState.new_consistent
  unused := ⟨field_zero 1 7, field_zero 48 16⟩

theorem steps_kept (kept : lock.Kept) (operations : List (LockOperation Owner)) :
    (lock.steps operations).Kept := by
  induction operations generalizing lock with
  | nil => exact kept
  | cons operation rest ih =>
    apply ih
    obtain ⟨low, high⟩ := within_counter_unused (step_within_counter lock operation)
    refine ⟨step_consistent kept.consistent operation, ?_, ?_⟩
    · rw [low]
      exact kept.unused.1
    · rw [high]
      exact kept.unused.2

theorem remove_shared_absent {owner : Owner} {entries : List (SharedOwnerEntry Owner)}
    (absent : owner ∉ entries.map SharedOwnerEntry.owner) : removeShared owner entries = none := by
  induction entries with
  | nil => rfl
  | cons entry rest ih =>
    rw [List.map_cons, List.mem_cons, not_or] at absent
    rw [removeShared, if_neg (Ne.symm absent.1), ih absent.2]
    rfl

/-- What the word and the tables of owners say about each other, in the words of the code. -/
structure Bookkeeping (lock : PackedLockState Owner) : Prop where
  apart : ¬(lock.state &&& LockWord.writerFlagMask ≠ 0 ∧ LockWord.readersCount lock.state ≠ 0)
  unused : field 1 7 lock.state = 0 ∧ field 48 16 lock.state = 0
  writer : lock.currentOwner.isSome = true ↔ lock.state &&& LockWord.writerFlagMask ≠ 0
  readers : (LockWord.readersCount lock.state).toNat = totalCount lock.sharedOwners
  distinct : (lock.sharedOwners.map SharedOwnerEntry.owner).Nodup
  noCarry : ∀ operation, WithinCounter operation lock.state (lock.step operation).state
  noSharedHold : ∀ owner, owner ∉ lock.sharedOwners.map SharedOwnerEntry.owner →
    lock.releaseShared owner = (lock, false)
  noExclusiveHold : ∀ owner, lock.currentOwner ≠ some owner →
    lock.releaseExclusive owner = (lock, false)

/-- In every run of operations the word and the owners tell of the same holds, and no counter of
the word runs into the next one. No bound on the number of operations is assumed. -/
theorem every_run_bookkeeping (operations : List (LockOperation Owner)) :
    ((new : PackedLockState Owner).steps operations).Bookkeeping := by
  have kept : ((new : PackedLockState Owner).steps operations).Kept := steps_kept new_kept operations
  generalize (new : PackedLockState Owner).steps operations = lock at kept
  have flag : lock.state &&& LockWord.writerFlagMask ≠ 0 ↔ lock.view.atomicState.writer = true := by
    rw [Ne, LockWord.no_writer_iff]
    exact decide_eq_true_iff.symm
  constructor
  case apart =>
    rintro ⟨isWriter, hasReaders⟩
    apply hasReaders
    apply BitVec.eq_of_toNat_eq
    rw [LockWord.readers_count_field]
    exact kept.consistent.apart (flag.1 isWriter)
  case unused => exact kept.unused
  case writer =>
    rw [flag, kept.consistent.writer]
    rfl
  case readers =>
    rw [LockWord.readers_count_field]
    exact kept.consistent.readers.symm
  case distinct => exact kept.consistent.counted.distinct
  case noCarry => exact step_within_counter lock
  case noSharedHold =>
    intro owner absent
    unfold releaseShared
    rw [remove_shared_absent absent]
  case noExclusiveHold =>
    intro owner other
    exact if_neg other

end PackedLockState

end Rustfs.Lock
