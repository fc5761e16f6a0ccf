import Rustfs.Ecstore.Erasure
import Rustfs.Filemeta.FileInfo
import Rustfs.Library.Runs
import Mathlib.Data.List.Nodup
import Mathlib.Data.List.Range

/-!
# Drives in the order of the distribution

The shuffles of `ecstore/src/set_disk/metadata.rs`. One copies the drives and their metadata to
their slots and counts what is inconsistent on the way; the other counts first and moves them. An
index outside a list is a panic, which is `none` here. What is logged about inconsistent drives is
left out.
-/

namespace Rustfs.Ecstore

open List Option Filemeta Library Library.Blocks

structure Shuffled (Disk : Type) where
  disks : List (Option Disk)
  partsMetadata : List FileInfo

namespace Shuffled

variable {Disk : Type}

def new (disks : List (Option Disk)) (partsMetadata : List FileInfo) : Shuffled Disk :=
  ⟨List.replicate disks.length none, List.replicate partsMetadata.length .default⟩

/-- `checked_sub(1)`, and the two bounds. -/
def slot (shuffled : Shuffled Disk) (block : UInt64) : Option Nat :=
  if 0 < block.toNat ∧ block.toNat - 1 < shuffled.partsMetadata.length ∧
      block.toNat - 1 < shuffled.disks.length then
    some (block.toNat - 1)
  else none

def put (shuffled : Shuffled Disk) (slot : Nat) (disk : Option Disk) (info : FileInfo) :
    Shuffled Disk :=
  ⟨shuffled.disks.set slot disk, shuffled.partsMetadata.set slot info⟩

end Shuffled

section Shuffles

variable {Disk : Type} (disks : List (Option Disk)) (partsMetadata : List FileInfo) (fi : FileInfo)

def shuffleRound (shuffled : Shuffled Disk) (k : Nat) : Option (Shuffled Disk) := do
  let disk ← disks[k]?
  if disk.isNone then pure shuffled
  else
    let info ← partsMetadata[k]?
    if !fi.modTime.isNone && !info.hasValidErasureGeometry then pure shuffled
    else
      let block ← fi.erasure.distribution[k]?
      match shuffled.slot block with
      | none => pure shuffled
      | some slot => pure (shuffled.put slot disk info)

def shuffleDisksAndPartsMetadata : Option (Shuffled Disk) :=
  run (shuffleRound disks partsMetadata fi) (.new disks partsMetadata) (List.range disks.length)

/-- The number of inconsistent sources so far, and the slots. -/
def byIndexRound (state : Nat × Shuffled Disk) (k : Nat) : Option (Nat × Shuffled Disk) := do
  let disk ← disks[k]?
  if disk.isNone then pure (state.1 + 1, state.2)
  else
    let info ← partsMetadata[k]?
    if !info.hasValidErasureGeometry then pure (state.1 + 1, state.2)
    else
      let block ← fi.erasure.distribution[k]?
      if block ≠ info.erasure.index then pure (state.1 + 1, state.2)
      else
        match state.2.slot block with
        | none => pure (state.1 + 1, state.2)
        | some slot => pure (state.1, state.2.put slot disk info)

def shuffleDisksAndPartsMetadataByIndex : Option (Shuffled Disk) := do
  let (inconsistent, shuffled) ← run (byIndexRound disks partsMetadata fi)
    (0, .new disks partsMetadata) (List.range partsMetadata.length)
  if inconsistent < fi.erasure.parityBlocks.toNat then pure shuffled
  else shuffleDisksAndPartsMetadata disks partsMetadata fi

def countRound (inconsistent k : Nat) : Option Nat := do
  let disk ← disks[k]?
  let info ← partsMetadata[k]?
  if disk.isNone || !info.hasValidErasureGeometry then pure (inconsistent + 1)
  else
    let block ← fi.erasure.distribution[k]?
    if block ≠ info.erasure.index then pure (inconsistent + 1) else pure inconsistent

/-- What has not been moved out of the inputs, and the slots. -/
structure Moving (Disk : Type) where
  disks : List (Option Disk)
  partsMetadata : List FileInfo
  shuffled : Shuffled Disk

def moveRound (useByIndex : Bool) (state : Moving Disk) (k : Nat) : Option (Moving Disk) := do
  let disk ← state.disks[k]?
  if disk.isNone then pure state
  else
    let info ← state.partsMetadata[k]?
    let block ← fi.erasure.distribution[k]?
    let eligible :=
      if useByIndex then info.hasValidErasureGeometry && block = info.erasure.index
      else fi.modTime.isNone || info.hasValidErasureGeometry
    if !eligible then pure state
    else
      match state.shuffled.slot block with
      | none => pure state
      | some slot =>
        pure ⟨state.disks.set k none, state.partsMetadata.set k .default,
          state.shuffled.put slot disk info⟩

def shuffleDisksAndPartsMetadataByIndexOwned : Option (Shuffled Disk) := do
  let inconsistent ← run (countRound disks partsMetadata fi) 0 (List.range partsMetadata.length)
  let useByIndex : Bool := inconsistent < fi.erasure.parityBlocks.toNat
  let moved ← run (moveRound fi useByIndex) ⟨disks, partsMetadata, .new disks partsMetadata⟩
    (List.range partsMetadata.length)
  pure moved.shuffled

end Shuffles

/-- The drives, their metadata and their blocks in the order of the inputs. -/
structure Sources (Disk : Type) where
  disk : Nat → Option Disk
  info : Nat → FileInfo
  block : Nat → UInt64

namespace Sources

variable {Disk : Type} (sources : Sources Disk)

def consistent (k : Nat) : Bool :=
  (sources.disk k).isSome && (sources.info k).hasValidErasureGeometry &&
    sources.block k = (sources.info k).erasure.index

def inconsistent (count : Nat) : Nat := (List.range count).countP fun k => !sources.consistent k

/-- The eligible ones among the first sources, each in its slot. -/
def scattered (eligible : Nat → Bool) (count : Nat) : Nat → Shuffled Disk
  | 0 => ⟨List.replicate count none, List.replicate count .default⟩
  | k + 1 =>
    if eligible k then
      (scattered eligible count k).put ((sources.block k).toNat - 1) (sources.disk k) (sources.info k)
    else scattered eligible count k

/-- Placed when too many sources are inconsistent. -/
def lenient (init : Bool) (k : Nat) : Bool :=
  (sources.disk k).isSome && (init || (sources.info k).hasValidErasureGeometry)

theorem scattered_length (eligible : Nat → Bool) (count k : Nat) :
    (sources.scattered eligible count k).disks.length = count ∧
      (sources.scattered eligible count k).partsMetadata.length = count := by
  induction k with
  | zero => exact ⟨length_replicate, length_replicate⟩
  | succ k ih =>
    rw [scattered]
    split
    · exact ⟨length_set.trans ih.1, length_set.trans ih.2⟩
    · exact ih

theorem inconsistent_succ (k : Nat) :
    sources.inconsistent (k + 1) =
      if sources.consistent k then sources.inconsistent k else sources.inconsistent k + 1 := by
  unfold inconsistent
  rw [range_succ, countP_append, countP_singleton]
  cases sources.consistent k with
  | true => rfl
  | false => rfl

end Sources

/-- The inputs list the sources, and no two sources have one block. -/
structure Sources.Aligned {Disk : Type} (sources : Sources Disk) (disks : List (Option Disk))
    (partsMetadata : List FileInfo) (fi : FileInfo) : Prop where
  sized : partsMetadata.length = disks.length
  disk : ∀ {k}, k < disks.length → disks[k]? = some (sources.disk k)
  info : ∀ {k}, k < disks.length → partsMetadata[k]? = some (sources.info k)
  block : ∀ {k}, k < disks.length → fi.erasure.distribution[k]? = some (sources.block k)
  range : ∀ {k}, k < disks.length →
    0 < (sources.block k).toNat ∧ (sources.block k).toNat ≤ disks.length
  apart : ∀ {j k}, j < disks.length → k < disks.length →
    (sources.block j).toNat = (sources.block k).toNat → j = k

section Rounds

variable {Disk : Type} {disks : List (Option Disk)} {partsMetadata : List FileInfo} {fi : FileInfo}
  {sources : Sources Disk} {k : Nat} (aligned : sources.Aligned disks partsMetadata fi)
  {eligible : Nat → Bool}

theorem scattered_off {eligible : Nat → Bool} {s m : Nat} (inside : s < disks.length)
    (vacant : ∀ k < m, eligible k = true → (sources.block k).toNat - 1 ≠ s) :
    (sources.scattered eligible disks.length m).disks[s]? = some Option.none := by
  induction m with
  | zero => exact getElem?_replicate_of_lt inside
  | succ m ih =>
    have before := ih fun k below => vacant k (by omega)
    rw [Sources.scattered]
    split
    · exact (getElem?_set_ne (vacant m (by omega) ‹_›)).trans before
    · exact before

include aligned

theorem Sources.Aligned.slot_eq (inside : k < disks.length) (eligible : Nat → Bool) (m : Nat) :
    (sources.scattered eligible disks.length m).slot (sources.block k) =
      some ((sources.block k).toNat - 1) := by
  have lengths := sources.scattered_length eligible disks.length m
  have range := aligned.range inside
  unfold Shuffled.slot
  rw [lengths.1, lengths.2, if_pos ⟨range.1, by omega, by omega⟩]

theorem Sources.Aligned.new_eq (eligible : Nat → Bool) :
    Shuffled.new disks partsMetadata = sources.scattered eligible disks.length 0 := by
  rw [Shuffled.new, Sources.scattered, aligned.sized]

theorem by_index_round_eq (inside : k < disks.length) (count : Nat) :
    byIndexRound disks partsMetadata fi (count, sources.scattered sources.consistent disks.length k) k =
      some (if sources.consistent k then count else count + 1,
        sources.scattered sources.consistent disks.length (k + 1)) := by
  have slot := aligned.slot_eq inside sources.consistent k
  have isConsistent : sources.consistent k = ((sources.disk k).isSome &&
    (sources.info k).hasValidErasureGeometry && sources.block k = (sources.info k).erasure.index) := rfl
  simp only [byIndexRound, aligned.disk inside, aligned.info inside, aligned.block inside,
    bind_eq_bind, bind_some, slot, Sources.scattered, isConsistent]
  cases sources.disk k with
  | none => rfl
  | some disk =>
    cases (sources.info k).hasValidErasureGeometry with
    | false => rfl
    | true =>
      by_cases same : sources.block k = (sources.info k).erasure.index
      · simp [same]
      · simp [same]

theorem count_round_eq (inside : k < disks.length) (count : Nat) :
    countRound disks partsMetadata fi count k =
      some (if sources.consistent k then count else count + 1) := by
  simp only [countRound, aligned.disk inside, aligned.info inside, aligned.block inside,
    bind_eq_bind, bind_some, Sources.consistent, ← not_isSome]
  grind

theorem lenient_round_eq (inside : k < disks.length) :
    shuffleRound disks partsMetadata fi
        (sources.scattered (sources.lenient fi.modTime.isNone) disks.length k) k =
      some (sources.scattered (sources.lenient fi.modTime.isNone) disks.length (k + 1)) := by
  have slot := aligned.slot_eq inside (sources.lenient fi.modTime.isNone) k
  have isLenient : sources.lenient fi.modTime.isNone k = ((sources.disk k).isSome &&
    (fi.modTime.isNone || (sources.info k).hasValidErasureGeometry)) := rfl
  simp only [shuffleRound, aligned.disk inside, aligned.info inside, aligned.block inside,
    bind_eq_bind, bind_some, slot, Sources.scattered, isLenient]
  cases sources.disk k with
  | none => rfl
  | some disk =>
    cases (sources.info k).hasValidErasureGeometry with
    | false =>
      cases fi.modTime.isNone with
      | true => rfl
      | false => rfl
    | true => simp

/-- What is not visited yet is where it was. -/
def Unmoved (disks : List (Option Disk)) (partsMetadata : List FileInfo) (k : Nat)
    (state : Moving Disk) : Prop :=
  ∀ j, k ≤ j → state.disks[j]? = disks[j]? ∧ state.partsMetadata[j]? = partsMetadata[j]?

theorem move_round_eq (inside : k < disks.length) {useByIndex : Bool}
    (isEligible : eligible = if useByIndex then sources.consistent else sources.lenient fi.modTime.isNone)
    {state : Moving Disk} (unmoved : Unmoved disks partsMetadata k state)
    (placed : state.shuffled = sources.scattered eligible disks.length k) :
    ∃ next, moveRound fi useByIndex state k = some next ∧
      Unmoved disks partsMetadata (k + 1) next ∧
      next.shuffled = sources.scattered eligible disks.length (k + 1) := by
  have slot := aligned.slot_eq inside eligible k
  obtain ⟨isDisk, isInfo⟩ := unmoved k (Nat.le_refl k)
  rw [aligned.disk inside] at isDisk
  rw [aligned.info inside] at isInfo
  have later : Unmoved disks partsMetadata (k + 1) state := fun j behind => unmoved j (by omega)
  have moved : Unmoved disks partsMetadata (k + 1) ⟨state.disks.set k none,
      state.partsMetadata.set k .default, state.shuffled.put ((sources.block k).toNat - 1)
        (sources.disk k) (sources.info k)⟩ := by
    intro j behind
    rw [getElem?_set_ne (by omega), getElem?_set_ne (by omega)]
    exact later j behind
  have decided : eligible k = ((sources.disk k).isSome &&
      if useByIndex then (sources.info k).hasValidErasureGeometry &&
        sources.block k = (sources.info k).erasure.index
      else fi.modTime.isNone || (sources.info k).hasValidErasureGeometry) := by
    rw [isEligible]
    cases useByIndex with
    | true => exact Bool.and_assoc ..
    | false => rfl
  simp only [moveRound, isDisk, isInfo, aligned.block inside, bind_eq_bind, bind_some,
    placed, slot, Sources.scattered]
  generalize (if useByIndex then (sources.info k).hasValidErasureGeometry &&
    decide (sources.block k = (sources.info k).erasure.index)
    else fi.modTime.isNone || (sources.info k).hasValidErasureGeometry) = fits at decided ⊢
  rw [decided]
  cases sources.disk k with
  | none => exact ⟨state, rfl, later, placed⟩
  | some disk =>
    cases fits with
    | false => exact ⟨state, rfl, later, placed⟩
    | true => exact ⟨_, rfl, moved, rfl⟩

theorem by_index_runs :
    run (byIndexRound disks partsMetadata fi) (0, .new disks partsMetadata)
        (List.range partsMetadata.length) =
      some (sources.inconsistent disks.length,
        sources.scattered sources.consistent disks.length disks.length) := by
  rw [aligned.sized, aligned.new_eq sources.consistent]
  apply run_range_eq fun k =>
    (sources.inconsistent k, sources.scattered sources.consistent disks.length k)
  intro k inside
  rw [by_index_round_eq aligned inside, sources.inconsistent_succ]

theorem count_runs :
    run (countRound disks partsMetadata fi) 0 (List.range partsMetadata.length) =
      some (sources.inconsistent disks.length) := by
  rw [aligned.sized]
  apply run_range_eq sources.inconsistent
  intro k inside
  rw [count_round_eq aligned inside, sources.inconsistent_succ]

theorem lenient_runs :
    shuffleDisksAndPartsMetadata disks partsMetadata fi =
      some (sources.scattered (sources.lenient fi.modTime.isNone) disks.length disks.length) := by
  rw [shuffleDisksAndPartsMetadata, aligned.new_eq (sources.lenient fi.modTime.isNone)]
  exact run_range_eq (sources.scattered (sources.lenient fi.modTime.isNone) disks.length)
    fun k inside => lenient_round_eq aligned inside

/-- The sources that either shuffle places. -/
def Sources.placed (sources : Sources Disk) (fi : FileInfo) (count : Nat) : Nat → Bool :=
  if sources.inconsistent count < fi.erasure.parityBlocks.toNat then sources.consistent
  else sources.lenient fi.modTime.isNone

theorem by_index_eq :
    shuffleDisksAndPartsMetadataByIndex disks partsMetadata fi =
      some (sources.scattered (sources.placed fi disks.length) disks.length disks.length) := by
  rw [shuffleDisksAndPartsMetadataByIndex, by_index_runs aligned, lenient_runs aligned, Sources.placed]
  simp only [bind_eq_bind, bind_some]
  split
  · rfl
  · rfl

theorem owned_eq :
    shuffleDisksAndPartsMetadataByIndexOwned disks partsMetadata fi =
      some (sources.scattered (sources.placed fi disks.length) disks.length disks.length) := by
  rw [shuffleDisksAndPartsMetadataByIndexOwned, count_runs aligned]
  simp only [bind_eq_bind, bind_some]
  obtain ⟨final, ran, _, placed⟩ := @run_range _ (moveRound fi
      (decide (sources.inconsistent disks.length < fi.erasure.parityBlocks.toNat))) disks.length
    ⟨disks, partsMetadata, .new disks partsMetadata⟩
    (fun k state => Unmoved disks partsMetadata k state ∧
      state.shuffled = sources.scattered (sources.placed fi disks.length) disks.length k)
    ⟨fun _ _ => ⟨rfl, rfl⟩, aligned.new_eq _⟩
    fun k inside state held => by
      refine move_round_eq aligned inside ?_ held.1 held.2
      simp [Sources.placed]
  rw [aligned.sized, ran, bind_some, placed]
  rfl

theorem scattered_at {m : Nat} (within : m ≤ disks.length) (below : k < m)
    (isEligible : eligible k = true) :
    (sources.scattered eligible disks.length m).disks[(sources.block k).toNat - 1]? =
        some (sources.disk k) ∧
      (sources.scattered eligible disks.length m).partsMetadata[(sources.block k).toNat - 1]? =
        some (sources.info k) := by
  induction m with
  | zero => cases below
  | succ m ih =>
    have range := aligned.range (Nat.lt_of_lt_of_le below within)
    have lengths := sources.scattered_length eligible disks.length m
    rw [Sources.scattered]
    rcases Nat.lt_or_eq_of_le (Nat.lt_succ_iff.1 below) with earlier | rfl
    · have before := ih (by omega) earlier
      split
      · have other := aligned.range (Nat.lt_of_succ_le within)
        have apart : (sources.block m).toNat - 1 ≠ (sources.block k).toNat - 1 := by
          intro same
          have isSame := aligned.apart (by omega) (by omega)
            (show (sources.block m).toNat = (sources.block k).toNat by omega)
          omega
        exact ⟨(getElem?_set_ne apart).trans before.1, (getElem?_set_ne apart).trans before.2⟩
      · exact before
    · rw [if_pos isEligible]
      exact ⟨getElem?_set_self (by omega), getElem?_set_self (by omega)⟩

/-- What is in a slot comes from the source with the block of the slot. -/
theorem slot_source {s : Nat} {drive : Disk}
    (filled : (sources.scattered eligible disks.length disks.length).disks[s]? = some (some drive)) :
    ∃ k < disks.length, eligible k = true ∧ (sources.block k).toNat = s + 1 ∧
      sources.disk k = some drive ∧
      (sources.scattered eligible disks.length disks.length).partsMetadata[s]? =
        some (sources.info k) := by
  have lengths := sources.scattered_length eligible disks.length disks.length
  have inside : s < disks.length := lengths.1 ▸ (List.getElem?_eq_some_iff.1 filled).1
  by_cases source : ∃ k < disks.length, eligible k = true ∧ (sources.block k).toNat - 1 = s
  · obtain ⟨k, below, isEligible, isSlot⟩ := source
    have range := aligned.range below
    obtain ⟨atDisk, atInfo⟩ := scattered_at aligned (Nat.le_refl _) below isEligible
    rw [isSlot] at atDisk atInfo
    rw [filled, some_inj] at atDisk
    exact ⟨k, below, isEligible, by omega, atDisk.symm, atInfo⟩
  · have empty := @scattered_off _ disks sources eligible s disks.length inside
      fun k below isEligible isSlot => source ⟨k, below, isEligible, isSlot⟩
    rw [filled] at empty
    cases empty

theorem consistent_placed (below : k < disks.length) {s : Nat} (isBlock : (sources.block k).toNat = s + 1) :
    ((∃ drive, (sources.scattered sources.consistent disks.length disks.length).disks[s]? =
        some (some drive)) ↔ sources.consistent k = true) ∧
      (sources.consistent k = true → (sources.info k).erasure.index.toNat = s + 1) := by
  refine ⟨⟨?_, ?_⟩, ?_⟩
  · rintro ⟨drive, filled⟩
    obtain ⟨other, within, isConsistent, same, _⟩ := slot_source aligned filled
    rwa [← aligned.apart within below (same.trans isBlock.symm)]
  · intro isConsistent
    obtain ⟨atDisk, _⟩ := scattered_at aligned (Nat.le_refl _) below isConsistent
    simp only [Sources.consistent, Bool.and_eq_true] at isConsistent
    obtain ⟨drive, isDrive⟩ := isSome_iff_exists.1 isConsistent.1.1
    rw [isBlock, isDrive] at atDisk
    exact ⟨drive, atDisk⟩
  · intro isConsistent
    simp only [Sources.consistent, Bool.and_eq_true, decide_eq_true_eq] at isConsistent
    rw [← isConsistent.2, isBlock]

end Rounds

def sourcesOf {Disk : Type} (disks : List (Option Disk)) (partsMetadata : List FileInfo)
    (fi : FileInfo) : Sources Disk where
  disk k := disks.getD k none
  info k := partsMetadata.getD k .default
  block k := fi.erasure.distribution.getD k 0

section Agreement

variable {Disk : Type} {disks : List (Option Disk)} {partsMetadata : List FileInfo} {fi : FileInfo}
  (sized : partsMetadata.length = disks.length)
  (permuted : (fi.erasure.distribution.map UInt64.toNat).Perm (List.range' 1 disks.length))

include permuted

theorem block_unique {j k s : Nat} (here : fi.erasure.distribution[k]?.map UInt64.toNat = some s)
    (there : fi.erasure.distribution[j]?.map UInt64.toNat = some s) : j = k := by
  rw [← getElem?_map] at here there
  obtain ⟨inside, _⟩ := List.getElem?_eq_some_iff.1 there
  exact (getElem?_inj inside (permuted.nodup_iff.2 (nodup_range' 1))).1 (there.trans here.symm)

theorem distribution_length : fi.erasure.distribution.length = disks.length := by
  have lengths := permuted.length_eq
  rwa [length_map, length_range'] at lengths

include sized

theorem sources_aligned : (sourcesOf disks partsMetadata fi).Aligned disks partsMetadata fi := by
  have length := distribution_length permuted
  have present {α : Type} {items : List α} {k : Nat} (other : α) (isLength : items.length = disks.length)
      (inside : k < disks.length) : items[k]? = some (items.getD k other) := by
    rw [getD_eq_getElem?_getD, getElem?_eq_getElem (isLength ▸ inside)]
    rfl
  refine ⟨sized, present none rfl, present .default sized, present 0 length, ?_, ?_⟩
  · intro k inside
    have member := mem_map_of_mem (f := UInt64.toNat) (mem_of_getElem? (present 0 length inside))
    have bounds := mem_range'_1.1 (permuted.mem_iff.1 member)
    exact ⟨bounds.1, Nat.lt_one_add_iff.1 bounds.2⟩
  · intro j k first second same
    have here := congrArg (Option.map UInt64.toNat) (present 0 length first)
    have there := congrArg (Option.map UInt64.toNat) (present 0 length second)
    exact block_unique permuted (there.trans (congrArg some same.symm)) here

/-- Both shuffles give the same slots, a drive stands only in the slot that the distribution gives
it, with its own metadata, and below the bound for inconsistent drives the slots are filled by the
drives whose stored index says so. -/
theorem drive_shuffles_agree :
    ∃ shuffled, shuffleDisksAndPartsMetadataByIndexOwned disks partsMetadata fi = some shuffled ∧
      shuffleDisksAndPartsMetadataByIndex disks partsMetadata fi = some shuffled ∧
      (∀ (s : Nat) (drive : Disk), shuffled.disks[s]? = some (some drive) →
        ∃ k : Nat, (∀ j : Nat, fi.erasure.distribution[j]?.map UInt64.toNat = some (s + 1) ↔ j = k) ∧
          disks[k]? = some (some drive) ∧ shuffled.partsMetadata[s]? = partsMetadata[k]?) ∧
      ((sourcesOf disks partsMetadata fi).inconsistent disks.length < fi.erasure.parityBlocks.toNat →
        ∀ k s : Nat, fi.erasure.distribution[k]?.map UInt64.toNat = some (s + 1) →
          ((∃ drive, shuffled.disks[s]? = some (some drive)) ↔
            (sourcesOf disks partsMetadata fi).consistent k = true) ∧
          ((sourcesOf disks partsMetadata fi).consistent k = true →
            ((sourcesOf disks partsMetadata fi).info k).erasure.index.toNat = s + 1)) := by
  have aligned := sources_aligned sized permuted
  generalize sourcesOf disks partsMetadata fi = sources at aligned ⊢
  refine ⟨_, owned_eq aligned, by_index_eq aligned, ?_, ?_⟩
  · intro s drive filled
    obtain ⟨k, below, _, isBlock, isDrive, isInfo⟩ := slot_source aligned filled
    have found : fi.erasure.distribution[k]?.map UInt64.toNat = some (s + 1) := by
      rw [aligned.block below, map_some, isBlock]
    refine ⟨k, fun j => ⟨fun there => block_unique permuted found there, ?_⟩, ?_, ?_⟩
    · rintro rfl
      exact found
    · rw [aligned.disk below, isDrive]
    · rw [isInfo, aligned.info below]
  · intro few k s found
    have isPlaced : sources.placed fi disks.length = sources.consistent := if_pos few
    have below : k < disks.length := by
      obtain ⟨block, isAt, _⟩ := map_eq_some_iff.1 found
      have inside := (List.getElem?_eq_some_iff.1 isAt).1
      rwa [distribution_length permuted] at inside
    rw [aligned.block below, map_some, some_inj] at found
    rw [isPlaced]
    exact consistent_placed aligned below found

end Agreement

def twoDrives : FileInfo :=
  { FileInfo.default with erasure := { ErasureInfo.default with distribution := [2, 1] } }

/-- One data and one parity shard on two drives that are listed against their blocks. -/
def mirrored (index : UInt64) : FileInfo :=
  { FileInfo.default with
    erasure :=
      { ErasureInfo.default with
        dataBlocks := 1
        parityBlocks := 1
        blockSize := 1048576
        index
        distribution := [2, 1] } }

/-- Both metadata are consistent, so the drives are placed by their indexes. -/
theorem two_drives_shuffled :
    (sourcesOf [some 'a', some 'b'] [mirrored 2, mirrored 1] (mirrored 2)).inconsistent 2 = 0 ∧
      shuffleDisksAndPartsMetadataByIndexOwned [some 'a', some 'b'] [mirrored 2, mirrored 1]
        (mirrored 2) = some ⟨[some 'b', some 'a'], [mirrored 1, mirrored 2]⟩ ∧
      shuffleDisksAndPartsMetadataByIndex [some 'a', some 'b'] [mirrored 2, mirrored 1]
        (mirrored 2) = some ⟨[some 'b', some 'a'], [mirrored 1, mirrored 2]⟩ := by
  have placed : shuffleDisksAndPartsMetadataByIndex [some 'a', some 'b'] [mirrored 2, mirrored 1]
      (mirrored 2) = some ⟨[some 'b', some 'a'], [mirrored 1, mirrored 2]⟩ := rfl
  obtain ⟨shuffled, owned, cloned, _⟩ := @drive_shuffles_agree Char [some 'a', some 'b']
    [mirrored 2, mirrored 1] (mirrored 2) rfl (by decide)
  rw [placed] at cloned
  exact ⟨by decide, owned.trans cloned.symm, placed⟩

section ReadBack

variable {Disk : Type} {disks : List (Option Disk)} {partsMetadata : List FileInfo} {fi : FileInfo}

/-- A drive holds the shard of its block in the distribution, or cannot read it. -/
def OwnShards (disks : List (Option Disk)) (fi : FileInfo) (shards : List Bytes)
    (read : Disk → Option Bytes) : Prop :=
  ∀ (k : Nat) drive shard, disks[k]? = some (some drive) → read drive = some shard →
    ∃ block ∈ fi.erasure.distribution[k]?, shards[block.toNat - 1]? = some shard

theorem shuffled_holds_shards {sources : Sources Disk}
    (aligned : sources.Aligned disks partsMetadata fi) (eligible : Nat → Bool)
    {shards : List Bytes} {read : Disk → Option Bytes}
    (count : shards.length = disks.length) (own : OwnShards disks fi shards read) :
    HoldsShards shards
      ((sources.scattered eligible disks.length disks.length).disks.map (·.bind read)) := by
  have lengths := sources.scattered_length eligible disks.length disks.length
  refine forall₂_iff_get.2 ⟨by rw [length_map, lengths.1, count], ?_⟩
  intro s inShards inSlots
  rw [length_map] at inSlots
  simp only [get_eq_getElem, getElem_map]
  cases filled : (sources.scattered eligible disks.length disks.length).disks[s] with
  | none => exact .inl rfl
  | some drive =>
    obtain ⟨k, below, _, isBlock, isDrive, _⟩ :=
      slot_source aligned (List.getElem?_eq_some_iff.2 ⟨inSlots, filled⟩)
    cases answer : read drive with
    | none => exact .inl answer
    | some shard =>
      have isDisk := aligned.disk below
      rw [isDrive] at isDisk
      obtain ⟨block, listed, isShard⟩ := own k drive shard isDisk answer
      rw [aligned.block below, mem_some] at listed
      rw [← listed, isBlock, Nat.add_sub_cancel, getElem?_eq_getElem inShards, some_inj] at isShard
      exact .inr (answer.trans (congrArg some isShard.symm))

/-- In whatever order the drives stand, a range that is decoded from the shuffled ones is that range
of the object. -/
theorem shuffled_drives_read_back {rs : ReedSolomon} {erasure : Erasure} {reconstruct : Reconstruct}
    {data : Bytes} (read : Nat → Disk → Option Bytes) {shuffled : Shuffled Disk} {offset length : Nat}
    (sized : partsMetadata.length = disks.length)
    (permuted : (fi.erasure.distribution.map UInt64.toNat).Perm (List.range' 1 disks.length))
    (small : data.length < 2 ^ 64) (rebuilds : Rebuilds rs erasure reconstruct)
    (stored : ∀ index < blockCount erasure.blockSize data.length, ∃ shards,
      Erasure.encodeData rs erasure (block erasure.blockSize data index) = .ok shards ∧
        shards.length = disks.length ∧ OwnShards disks fi shards (read index))
    (isShuffled : shuffleDisksAndPartsMetadataByIndex disks partsMetadata fi = some shuffled ∨
      shuffleDisksAndPartsMetadataByIndexOwned disks partsMetadata fi = some shuffled)
    (enough : ∀ index < blockCount erasure.blockSize data.length,
      erasure.dataShards ≤ (shuffled.disks.map (·.bind (read index))).countP Option.isSome)
    (inside : offset + length ≤ data.length) :
    Erasure.decodeInner reconstruct erasure erasure.totalShardCount
        (fun index => shuffled.disks.map (·.bind (read index))) offset length data.length =
      ⟨length, (data.drop offset).take length, none⟩ := by
  have aligned := sources_aligned sized permuted
  have same : shuffled = (sourcesOf disks partsMetadata fi).scattered
      ((sourcesOf disks partsMetadata fi).placed fi disks.length) disks.length disks.length := by
    rw [owned_eq aligned, by_index_eq aligned, or_self_iff, some_inj] at isShuffled
    exact isShuffled.symm
  refine decode_inner_spec (fun index inRange => ?_) rebuilds inside small
  obtain ⟨shards, encoded, count, own⟩ := stored index inRange
  refine ⟨shards, encoded, ?_, enough index inRange⟩
  rw [same]
  exact shuffled_holds_shards aligned _ count own

end ReadBack

def swappedRead (index : Nat) (drive : Char) : Option Bytes :=
  (unevenStripe index)[if drive = 'a' then 1 else 0]?.join

theorem swapped_own {index : Nat} {first second : Bytes}
    (isStripe : unevenStripe index = [some first, some second]) :
    OwnShards [some 'a', some 'b'] twoDrives [first, second] (swappedRead index) := by
  intro k drive shard listed answer
  have few : k < 2 := (List.getElem?_eq_some_iff.1 listed).1
  rw [swappedRead, isStripe] at answer
  interval_cases k
  · cases listed
    cases answer
    exact ⟨2, rfl, rfl⟩
  · cases listed
    cases answer
    exact ⟨1, rfl, rfl⟩

theorem swapped_drives_read_back :
    Erasure.decodeInner .ok unevenErasure 2
        (fun index => [some 'b', some 'a'].map (·.bind (swappedRead index))) 2 2 5 =
      ⟨2, [3, 4], none⟩ := by
  refine @shuffled_drives_read_back Char [some 'a', some 'b'] [.default, .default] twoDrives noRecovery
    unevenErasure .ok [1, 2, 3, 4, 5] swappedRead ⟨[some 'b', some 'a'], [.default, .default]⟩ 2 2 rfl
    (by decide) (by decide) (rebuilds_without_parity _ rfl) ?_ (.inl rfl) ?_ (by decide)
  · intro index inRange
    have bound : index < 2 := inRange
    interval_cases index
    · exact ⟨[[1, 2], [3, 0]], rfl, rfl, swapped_own rfl⟩
    · exact ⟨[[4], [5]], rfl, rfl, swapped_own rfl⟩
  · intro index inRange
    have bound : index < 2 := inRange
    interval_cases index <;> decide

end Rustfs.Ecstore
