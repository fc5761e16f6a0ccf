import Rustfs.Ecstore.ObjectQuorum
import Rustfs.Library.FirstLeast
import Rustfs.Library.Quorum

/-!
# Dangling objects

`is_object_dangling` of `ecstore/src/set_disk/mod.rs` judges from the answers of the drives whether
the rest of an object may be deleted. It counts missing copies against the parity of the first valid
metadata, and looks at one part only: the first of those with the most missing files in the order of
the hash map. The grace window, the proof of absence and the deletion itself are left out, and so
are directory objects.
-/

namespace Rustfs.Ecstore

open List Filemeta Library

def checkPartSuccess : Nat := 1

def checkPartFileNotFound : Nat := 4

inductive DriveAnswer
  | present
  | notFound
  | nonActionable
  deriving DecidableEq

def metaAnswer : Option DiskError → DriveAnswer
  | none => .present
  | some err =>
    if err.same .fileNotFound || err.same .fileVersionNotFound then .notFound else .nonActionable

def partAnswer (result : Nat) : DriveAnswer :=
  if result = checkPartSuccess then .present
  else if result = checkPartFileNotFound then .notFound
  else .nonActionable

/-- The answers that are not found, and those that are not actionable. -/
def countAnswers (answers : List DriveAnswer) : Nat × Nat :=
  answers.foldl (fun counts answer =>
    match answer with
    | .present => counts
    | .notFound => (counts.1 + 1, counts.2)
    | .nonActionable => (counts.1, counts.2 + 1)) (0, 0)

def danglingMetaErrsCount (cerrs : List (Option DiskError)) : Nat × Nat :=
  countAnswers (cerrs.map metaAnswer)

def danglingPartErrsCount (results : List Nat) : Nat × Nat := countAnswers (results.map partAnswer)

/-- The counts of the first part with the most missing files. -/
def worstPart (dataErrsByPart : List (Nat × List Nat)) : Nat × Nat :=
  dataErrsByPart.foldl (fun worst part =>
    if worst.1 < (danglingPartErrsCount part.2).1 then danglingPartErrsCount part.2 else worst) (0, 0)

section Verdict

variable (env : Runtime) (metaArr : List FileInfo) (errs : List (Option DiskError))

def danglingVerdict (notFoundPartsErrs nonActionablePartsErrs : Nat) : FileInfo × Bool :=
  let (notFoundMetaErrs, nonActionableMetaErrs) := danglingMetaErrsCount errs
  let validMeta := (metaArr.find? fileInfoIsValidForMetadata).getD .default
  if !fileInfoIsValidForMetadata validMeta then
    (validMeta, (metaArr.length + 1) / 2 < notFoundPartsErrs)
  else if 0 < nonActionableMetaErrs || 0 < nonActionablePartsErrs then (validMeta, false)
  else if validMeta.isCanonicalDeleteMarker then
    (validMeta, (errs.length + 1) / 2 < notFoundMetaErrs)
  else if 0 < notFoundMetaErrs && validMeta.erasure.parityBlocks.toNat < notFoundMetaErrs then
    (validMeta, true)
  else if !validMeta.isRemote env && 0 < notFoundPartsErrs &&
      validMeta.erasure.parityBlocks.toNat < notFoundPartsErrs then
    (validMeta, true)
  else (validMeta, false)

/-- `dataErrsByPart` are the entries of the map in the order of its enumeration. -/
def isObjectDangling (dataErrsByPart : List (Nat × List Nat)) : FileInfo × Bool :=
  danglingVerdict env metaArr errs (worstPart dataErrsByPart).1 (worstPart dataErrsByPart).2

end Verdict

theorem count_answers_from (answers : List DriveAnswer) : ∀ counts : Nat × Nat,
    answers.foldl (fun counts answer =>
      match answer with
      | .present => counts
      | .notFound => (counts.1 + 1, counts.2)
      | .nonActionable => (counts.1, counts.2 + 1)) counts =
      (counts.1 + answers.count .notFound, counts.2 + answers.count .nonActionable) := by
  induction answers with
  | nil =>
    intro counts
    rfl
  | cons answer answers ih =>
    intro counts
    rw [foldl_cons, ih]
    cases answer <;> simp [Nat.add_assoc, Nat.add_comm 1]

theorem count_answers_eq (answers : List DriveAnswer) :
    countAnswers answers = (answers.count .notFound, answers.count .nonActionable) := by
  rw [countAnswers, count_answers_from]
  simp

def missingMeta (errs : List (Option DiskError)) : Nat := (errs.map metaAnswer).count .notFound

/-- The drives that miss the file of a part. -/
def missingFiles (part : Nat × List Nat) : Nat := (part.2.map partAnswer).count .notFound

/-- Some drive's answer for the metadata proves nothing: neither that the file is there nor that
it is missing. -/
def MetaInconclusive (errs : List (Option DiskError)) : Prop :=
  ∃ err ∈ errs, metaAnswer err = .nonActionable

/-- Some drive's answer for the part proves nothing. -/
def PartInconclusive (part : Nat × List Nat) : Prop :=
  ∃ result ∈ part.2, partAnswer result = .nonActionable

theorem meta_count_eq (errs : List (Option DiskError)) :
    (danglingMetaErrsCount errs).1 = missingMeta errs ∧
      (0 < (danglingMetaErrsCount errs).2 ↔ MetaInconclusive errs) := by
  unfold danglingMetaErrsCount missingMeta MetaInconclusive
  rw [count_answers_eq]
  refine ⟨rfl, ?_⟩
  rw [count_pos_iff, mem_map]

theorem part_count_eq (part : Nat × List Nat) :
    (danglingPartErrsCount part.2).1 = missingFiles part ∧
      (0 < (danglingPartErrsCount part.2).2 ↔ PartInconclusive part) := by
  unfold danglingPartErrsCount missingFiles PartInconclusive
  rw [count_answers_eq]
  refine ⟨rfl, ?_⟩
  rw [count_pos_iff, mem_map]

section Parts

variable {parts : List (Nat × List Nat)} {part : Nat × List Nat}

/-- The part misses files, and no other one misses more. -/
structure WorstPart (parts : List (Nat × List Nat)) (part : Nat × List Nat) : Prop where
  isPart : part ∈ parts
  misses : 0 < missingFiles part
  most : ∀ other ∈ parts, missingFiles other ≤ missingFiles part

/-- The first part with the most missing files misses some, and a drive's answer for it proves
nothing. -/
def WorstInconclusive (parts : List (Nat × List Nat)) : Prop :=
  ∃ front part back, parts = front ++ part :: back ∧ 0 < missingFiles part ∧
    (∀ other ∈ front, missingFiles other < missingFiles part) ∧
    (∀ other ∈ back, missingFiles other ≤ missingFiles part) ∧ PartInconclusive part

theorem worst_part_first_least (parts : List (Nat × List Nat)) :
    FirstLeast (fun counts : Nat × Nat => OrderDual.toDual counts.1)
      ((0, 0) :: parts.map fun part => danglingPartErrsCount part.2) (worstPart parts) := by
  have scanned := (FirstLeast.singleton (fun counts : Nat × Nat => OrderDual.toDual counts.1)
    (0, 0)).foldl (parts.map fun part => danglingPartErrsCount part.2)
  rw [foldl_map] at scanned
  exact scanned

theorem worst_part_cases (parts : List (Nat × List Nat)) :
    worstPart parts = (0, 0) ∧ (∀ part ∈ parts, missingFiles part = 0) ∨
      ∃ part, WorstPart parts part ∧ worstPart parts = danglingPartErrsCount part.2 := by
  have least := worst_part_first_least parts
  rw [← singleton_append] at least
  rcases least.append_cases with none | ⟨found, misses⟩
  · have isNone := mem_singleton.1 none.mem
    refine .inl ⟨isNone, fun part member => ?_⟩
    have bounded := least.le (mem_append_right _ (mem_map_of_mem member))
    rw [isNone] at bounded
    rw [← (part_count_eq part).1]
    exact Nat.le_zero.1 (OrderDual.toDual_le_toDual.1 bounded)
  · obtain ⟨part, member, isWorst⟩ := mem_map.1 found.mem
    refine .inr ⟨part, ⟨member, ?_, fun other isOther => ?_⟩, isWorst.symm⟩
    · have positive := misses (0, 0) mem_cons_self
      rw [← isWorst] at positive
      rw [← (part_count_eq part).1]
      exact OrderDual.toDual_lt_toDual.1 positive
    · have bounded := found.le (mem_map_of_mem isOther)
      rw [← isWorst] at bounded
      rw [← (part_count_eq part).1, ← (part_count_eq other).1]
      exact OrderDual.toDual_le_toDual.1 bounded

theorem worst_part_chosen {front back : List (Nat × List Nat)} (misses : 0 < missingFiles part)
    (before : ∀ other ∈ front, missingFiles other < missingFiles part)
    (after : ∀ other ∈ back, missingFiles other ≤ missingFiles part) :
    worstPart (front ++ part :: back) = danglingPartErrsCount part.2 := by
  apply (worst_part_first_least _).unique
  refine ⟨(0, 0) :: front.map fun part => danglingPartErrsCount part.2,
    back.map fun part => danglingPartErrsCount part.2, by simp, ?_, ?_⟩
  · intro counts member
    rcases mem_cons.1 member with rfl | inFront
    · dsimp only
      rw [(part_count_eq part).1]
      exact OrderDual.toDual_lt_toDual.2 misses
    · obtain ⟨other, isOther, rfl⟩ := mem_map.1 inFront
      dsimp only
      rw [(part_count_eq part).1, (part_count_eq other).1]
      exact OrderDual.toDual_lt_toDual.2 (before other isOther)
  · intro counts member
    obtain ⟨other, isOther, rfl⟩ := mem_map.1 member
    dsimp only
    rw [(part_count_eq part).1, (part_count_eq other).1]
    exact OrderDual.toDual_le_toDual.2 (after other isOther)

theorem worst_inconclusive_iff (parts : List (Nat × List Nat)) :
    0 < (worstPart parts).2 ↔ WorstInconclusive parts := by
  constructor
  · intro inconclusive
    obtain ⟨front, back, split, before, after⟩ := worst_part_first_least parts
    -- The scan starts with no missing files and no answers, so its choice is a later one.
    cases front with
    | nil =>
      rw [nil_append, cons.injEq] at split
      rw [← split.1] at inconclusive
      cases inconclusive
    | cons start front =>
      rw [cons_append, cons.injEq] at split
      obtain ⟨rfl, split⟩ := split
      obtain ⟨front, behind, rfl, rfl, isBehind⟩ := map_eq_append_iff.1 split
      obtain ⟨part, back, rfl, isWorst, rfl⟩ := map_eq_cons_iff.1 isBehind
      rw [← isWorst] at before after inconclusive
      refine ⟨front, part, back, rfl, ?_, ?_, ?_, (part_count_eq part).2.1 inconclusive⟩
      · rw [← (part_count_eq part).1]
        exact OrderDual.toDual_lt_toDual.1 (before _ mem_cons_self)
      · intro other member
        rw [← (part_count_eq part).1, ← (part_count_eq other).1]
        exact OrderDual.toDual_lt_toDual.1 (before _ (mem_cons_of_mem _ (mem_map_of_mem member)))
      · intro other member
        rw [← (part_count_eq part).1, ← (part_count_eq other).1]
        exact OrderDual.toDual_le_toDual.1 (after _ (mem_map_of_mem member))
  · rintro ⟨front, part, back, rfl, misses, before, after, inconclusive⟩
    rw [worst_part_chosen misses before after]
    exact (part_count_eq part).2.2 inconclusive

theorem worst_part_first {rest : List (Nat × List Nat)} (worst : WorstPart parts part)
    (same : (part :: rest).Perm parts) :
    worstPart (part :: rest) = danglingPartErrsCount part.2 :=
  @worst_part_chosen _ [] _ worst.misses (fun other member => by cases member)
    fun other member => worst.most other (same.mem_iff.1 (mem_cons_of_mem _ member))

theorem WorstPart.perm {others : List (Nat × List Nat)} (same : parts.Perm others)
    (worst : WorstPart parts part) : WorstPart others part :=
  ⟨same.mem_iff.1 worst.isPart, worst.misses, fun other member =>
    worst.most other (same.mem_iff.2 member)⟩

end Parts

section Judged

variable {env : Runtime} {metaArr : List FileInfo} {errs : List (Option DiskError)}
  {parts : List (Nat × List Nat)} {first : FileInfo} {order : List (Nat × List Nat)}
  {part : Nat × List Nat}

/-- More copies are missing than the first valid metadata allows: its parity, or half of the
drives for a delete marker, which has none. Part files of a remote object do not count. -/
def MissingExceeds (env : Runtime) (first : FileInfo) (errs : List (Option DiskError))
    (parts : List (Nat × List Nat)) : Prop :=
  if first.isCanonicalDeleteMarker then (errs.length + 1) / 2 < missingMeta errs
  else first.erasure.parityBlocks.toNat < missingMeta errs ∨
    first.isRemote env = false ∧ ∃ part ∈ parts, first.erasure.parityBlocks.toNat < missingFiles part

theorem dangling_verdict_iff (isFirst : metaArr.find? fileInfoIsValidForMetadata = some first)
    (notFound nonActionable : Nat) :
    (danglingVerdict env metaArr errs notFound nonActionable).2 = true ↔
      ¬ MetaInconclusive errs ∧ nonActionable = 0 ∧
      if first.isCanonicalDeleteMarker then (errs.length + 1) / 2 < missingMeta errs
      else first.erasure.parityBlocks.toNat < missingMeta errs ∨
        first.isRemote env = false ∧ first.erasure.parityBlocks.toNat < notFound := by
  obtain ⟨missing, inconclusive⟩ := meta_count_eq errs
  have valid := find?_some isFirst
  unfold danglingVerdict
  rw [isFirst, ← inconclusive, ← missing]
  generalize danglingMetaErrsCount errs = counts
  dsimp only
  rw [Option.getD_some, valid, if_neg (by simp)]
  by_cases uncertain : 0 < counts.2 ∨ 0 < nonActionable
  · rw [if_pos (by simpa using uncertain)]
    constructor
    · intro dangling
      cases dangling
    · omega
  · rw [if_neg (by simpa using uncertain)]
    have certain : ¬ 0 < counts.2 ∧ nonActionable = 0 := by omega
    simp only [certain, not_false_eq_true, true_and]
    split
    · simp
    · split
      · rename_i _ exceeds
        simp only [Bool.and_eq_true, decide_eq_true_eq] at exceeds
        simp [exceeds.2]
      · rename_i _ covered
        simp only [Bool.and_eq_true, decide_eq_true_eq] at covered
        have notMeta : ¬ first.erasure.parityBlocks.toNat < counts.1 := by omega
        split
        · rename_i exceeds
          simp only [Bool.and_eq_true, decide_eq_true_eq, Bool.not_eq_true'] at exceeds
          simp [exceeds.1.1, exceeds.2]
        · rename_i coveredToo
          simp only [Bool.and_eq_true, decide_eq_true_eq, Bool.not_eq_true', not_and] at coveredToo
          simp only [Bool.false_eq_true, notMeta, false_or, false_iff, not_and]
          intro notRemote exceeds
          exact coveredToo ⟨notRemote, by omega⟩ exceeds

theorem missing_parts_iff (allowed : Nat) :
    (∃ part ∈ parts, allowed < missingFiles part) ↔ allowed < (worstPart parts).1 := by
  rcases worst_part_cases parts with ⟨isNone, nothing⟩ | ⟨worst, isWorst, counts⟩
  · rw [isNone]
    constructor
    · rintro ⟨part, member, exceeds⟩
      rw [nothing part member] at exceeds
      exact exceeds
    · intro exceeds
      cases exceeds
  · rw [counts, (part_count_eq worst).1]
    constructor
    · rintro ⟨part, member, exceeds⟩
      exact exceeds.trans_le (isWorst.most part member)
    · intro exceeds
      exact ⟨worst, isWorst.isPart, exceeds⟩

theorem dangling_iff (isFirst : metaArr.find? fileInfoIsValidForMetadata = some first) :
    (isObjectDangling env metaArr errs parts).2 = true ↔
      ¬ MetaInconclusive errs ∧ (worstPart parts).2 = 0 ∧ MissingExceeds env first errs parts := by
  unfold isObjectDangling MissingExceeds
  rw [dangling_verdict_iff isFirst, missing_parts_iff]

theorem not_valid_verdict (noValid : metaArr.find? fileInfoIsValidForMetadata = none)
    (notFound nonActionable : Nat) :
    (danglingVerdict env metaArr errs notFound nonActionable).2 =
      decide ((metaArr.length + 1) / 2 < notFound) := by
  unfold danglingVerdict
  rw [noValid, Option.getD_none]
  rfl

theorem dangling_verdict_congr {notFound nonActionable nonActionable' : Nat}
    (same : 0 < nonActionable ↔ 0 < nonActionable') :
    danglingVerdict env metaArr errs notFound nonActionable =
      danglingVerdict env metaArr errs notFound nonActionable' := by
  unfold danglingVerdict
  simp only [same]

theorem worst_count_perm (same : order.Perm parts) : (worstPart order).1 = (worstPart parts).1 := by
  have exceeds : ∀ allowed, allowed < (worstPart order).1 ↔ allowed < (worstPart parts).1 := by
    intro allowed
    rw [← missing_parts_iff, ← missing_parts_iff]
    simp only [same.mem_iff]
  exact Nat.le_antisymm (not_lt.1 fun less => lt_irrefl _ ((exceeds _).1 less))
    (not_lt.1 fun less => lt_irrefl _ ((exceeds _).2 less))

theorem missing_exceeds_perm (same : order.Perm parts) :
    MissingExceeds env first errs order ↔ MissingExceeds env first errs parts := by
  unfold MissingExceeds
  simp only [same.mem_iff]

/-- The worst parts agree on whether there are answers that prove nothing. Which of them is looked
at is up to the order of the hash map. -/
def WorstPartsAgree (parts : List (Nat × List Nat)) : Prop :=
  ∀ part other, WorstPart parts part → WorstPart parts other →
    PartInconclusive part → PartInconclusive other

theorem worst_inconclusive_perm (same : order.Perm parts) (agree : WorstPartsAgree parts) :
    0 < (worstPart order).2 ↔ 0 < (worstPart parts).2 := by
  rcases worst_part_cases order with ⟨isNone, nothing⟩ | ⟨worst, isWorst, counts⟩
  · rcases worst_part_cases parts with ⟨isNone', _⟩ | ⟨worst', isWorst', _⟩
    · rw [isNone, isNone']
    · have misses := isWorst'.misses
      rw [nothing worst' (same.mem_iff.2 isWorst'.isPart)] at misses
      cases misses
  · rcases worst_part_cases parts with ⟨_, nothing'⟩ | ⟨worst', isWorst', counts'⟩
    · have misses := isWorst.misses
      rw [nothing' worst (same.mem_iff.1 isWorst.isPart)] at misses
      cases misses
    · rw [counts, counts', (part_count_eq worst).2, (part_count_eq worst').2]
      exact ⟨agree _ _ (isWorst.perm same) isWorst', agree _ _ isWorst' (isWorst.perm same)⟩

theorem worst_first_verdict (isFirst : metaArr.find? fileInfoIsValidForMetadata = some first)
    (conclusive : ¬ MetaInconclusive errs) (exceeds : MissingExceeds env first errs parts)
    (worst : WorstPart parts part) :
    ∃ order, order.Perm parts ∧
      ((isObjectDangling env metaArr errs order).2 = true ↔ ¬ PartInconclusive part) := by
  obtain ⟨rest, same⟩ := perm_cons_of_mem worst.isPart
  refine ⟨part :: rest, same, ?_⟩
  rw [dangling_iff isFirst, worst_part_first worst same, missing_exceeds_perm same,
    ← (part_count_eq part).2]
  simp [conclusive, exceeds]

/-- Metadata of an object, not of a delete marker, with the given geometry. -/
structure ObjectCopy (n k : Nat) (copy : FileInfo) : Prop where
  valid : fileInfoIsValidForMetadata copy = true
  object : copy.isCanonicalDeleteMarker = false
  dataBlocks : copy.erasure.dataBlocks.toNat = k
  parityBlocks : copy.erasure.parityBlocks.toNat = n - k

/-- At the given places of `n` drives, the metadata and all files of one version are there, and
they are enough to read it. -/
structure Recoverable (n k : Nat) (metaArr : List FileInfo) (errs : List (Option DiskError))
    (parts : List (Nat × List Nat)) (version : FileInfo) (places : List Nat) : Prop where
  metaLength : metaArr.length = n
  errsLength : errs.length = n
  partsLength : ∀ part ∈ parts, part.2.length = n
  isObject : ObjectCopy n k version
  distinct : places.Nodup
  enough : k ≤ places.length
  answered : ∀ place ∈ places, errs[place]? = some none
  copies : ∀ place ∈ places, ∃ copy, metaArr[place]? = some copy ∧ ObjectCopy n k copy ∧
    copy.versionId = version.versionId ∧ copy.modTime = version.modTime ∧
    copy.dataDir = version.dataDir
  files : ∀ place ∈ places, ∀ part ∈ parts, part.2[place]? = some checkPartSuccess

theorem object_copy_geometry {n k : Nat} {copy : FileInfo} (isObject : ObjectCopy n k copy) :
    0 < k ∧ n - k ≤ k := by
  have geometry : copy.hasValidErasureGeometry = true := by
    have valid := isObject.valid
    unfold fileInfoIsValidForMetadata FileInfo.hasValidMetadataShape at valid
    rwa [isObject.object, Bool.or_false] at valid
  have blocks := geometry_blocks geometry
  rw [isObject.dataBlocks, isObject.parityBlocks] at blocks
  exact blocks

theorem missing_at_most {answers : List DriveAnswer} {places : List Nat} (distinct : places.Nodup)
    (present : ∀ place ∈ places, answers[place]? = some .present) :
    answers.count .notFound + places.length ≤ answers.length := by
  have others : places.length ≤ answers.countP fun answer => ¬ answer == .notFound := by
    apply Quorum.length_le_count_of_places distinct
    intro place isPlace
    exact ⟨.present, present place isPlace, rfl⟩
  have all := @length_eq_countP_add_countP _ (· == DriveAnswer.notFound) answers
  rw [List.count]
  omega

section Recovery

variable {n k : Nat} {version : FileInfo} {places : List Nat}
  (recoverable : Recoverable n k metaArr errs parts version places)

include recoverable

theorem Recoverable.missing_meta : missingMeta errs ≤ n - k := by
  have bound := @missing_at_most (errs.map metaAnswer) places recoverable.distinct (by
    intro place isPlace
    rw [getElem?_map, recoverable.answered place isPlace]
    rfl)
  rw [length_map, recoverable.errsLength] at bound
  have enough := recoverable.enough
  unfold missingMeta
  omega

theorem Recoverable.missing_files (isPart : part ∈ parts) : missingFiles part ≤ n - k := by
  have bound := @missing_at_most (part.2.map partAnswer) places recoverable.distinct (by
    intro place isPlace
    rw [getElem?_map, recoverable.files place isPlace part isPart]
    rfl)
  rw [length_map, recoverable.partsLength part isPart] at bound
  have enough := recoverable.enough
  unfold missingFiles
  omega

theorem Recoverable.first_valid :
    ∃ first, metaArr.find? fileInfoIsValidForMetadata = some first := by
  have enough := recoverable.enough
  obtain ⟨positive, _⟩ := object_copy_geometry recoverable.isObject
  obtain ⟨place, isPlace⟩ := exists_mem_of_length_pos (positive.trans_le enough)
  obtain ⟨copy, isCopy, isObject, _⟩ := recoverable.copies place isPlace
  rw [← Option.isSome_iff_exists, find?_isSome]
  exact ⟨copy, mem_of_getElem? isCopy, isObject.valid⟩

theorem Recoverable.exceeds_iff :
    MissingExceeds env first errs parts ↔ first.isCanonicalDeleteMarker = false ∧
      (first.erasure.parityBlocks.toNat < missingMeta errs ∨ first.isRemote env = false ∧
        ∃ part ∈ parts, first.erasure.parityBlocks.toNat < missingFiles part) := by
  unfold MissingExceeds
  cases first.isCanonicalDeleteMarker with
  | false => simp
  | true =>
    have missing := recoverable.missing_meta
    obtain ⟨_, half⟩ := object_copy_geometry recoverable.isObject
    simp only [if_true, Bool.true_eq_false, false_and, iff_false, not_lt]
    rw [recoverable.errsLength]
    omega

end Recovery

end Judged

/-- A recoverable object is kept exactly if an answer that counts proves nothing, or the first
valid metadata is a delete marker or has parity for all that is missing; so it is kept if the first
valid metadata has its geometry. -/
theorem recoverable_kept_iff (env : Runtime) (n k : Nat) (metaArr : List FileInfo)
    (errs : List (Option DiskError)) (parts : List (Nat × List Nat)) (version : FileInfo)
    (places : List Nat) (recoverable : Recoverable n k metaArr errs parts version places) :
    ∃ first, metaArr.find? fileInfoIsValidForMetadata = some first ∧
      ((isObjectDangling env metaArr errs parts).2 = false ↔
        MetaInconclusive errs ∨ WorstInconclusive parts ∨ first.isCanonicalDeleteMarker = true ∨
          missingMeta errs ≤ first.erasure.parityBlocks.toNat ∧
            (first.isRemote env = true ∨
              ∀ part ∈ parts, missingFiles part ≤ first.erasure.parityBlocks.toNat)) ∧
      (n - k ≤ first.erasure.parityBlocks.toNat →
        (isObjectDangling env metaArr errs parts).2 = false) := by
  obtain ⟨first, isFirst⟩ := recoverable.first_valid
  have kept : (isObjectDangling env metaArr errs parts).2 = false ↔
      MetaInconclusive errs ∨ WorstInconclusive parts ∨ first.isCanonicalDeleteMarker = true ∨
        missingMeta errs ≤ first.erasure.parityBlocks.toNat ∧
          (first.isRemote env = true ∨
            ∀ part ∈ parts, missingFiles part ≤ first.erasure.parityBlocks.toNat) := by
    have covered : (∀ part ∈ parts, missingFiles part ≤ first.erasure.parityBlocks.toNat) ↔
        ¬ ∃ part ∈ parts, first.erasure.parityBlocks.toNat < missingFiles part := by
      push Not
      exact Iff.rfl
    rw [Bool.eq_false_iff, Ne, dangling_iff isFirst, recoverable.exceeds_iff, covered, ← not_lt,
      ← worst_inconclusive_iff, Nat.pos_iff_ne_zero]
    rw [← Bool.not_eq_true (first.isRemote env), ← Bool.not_eq_true first.isCanonicalDeleteMarker]
    simp only [not_and_or, not_or, not_not, ne_eq]
  refine ⟨first, isFirst, kept, fun parity => kept.2 (.inr (.inr (.inr ⟨?_, .inr ?_⟩)))⟩
  · exact recoverable.missing_meta.trans parity
  · exact fun part isPart => (recoverable.missing_files isPart).trans parity

def sampleCopy (dataBlocks parityBlocks index : UInt64) (total : Nat) (dataDir : Uuid) : FileInfo :=
  { FileInfo.default with
    dataDir := some dataDir
    modTime := some ⟨1700000000000000000, OffsetDateTime.sample_in_range⟩
    erasure := ⟨"rs-vandermonde", dataBlocks, parityBlocks, 1048576, index,
      (List.range total).map fun slot => UInt64.ofNat (slot + 1), []⟩ }

/-- The copies on six drives: one that an overwrite has missed may be in front. -/
def overwrittenCopies (first : FileInfo) : List FileInfo :=
  [first, .default, .default, sampleCopy 3 3 4 6 8, sampleCopy 3 3 5 6 8, sampleCopy 3 3 6 6 8]

def twoDrivesMissing : List (Option DiskError) :=
  [none, some .fileNotFound, some .fileNotFound, none, none, none]

def oneFileMissing : List (Nat × List Nat) := [(1, [1, 4, 1, 1, 1, 1])]

theorem overwritten_recoverable (first : FileInfo) :
    Recoverable 6 3 (overwrittenCopies first) twoDrivesMissing oneFileMissing (sampleCopy 3 3 4 6 8)
      [3, 4, 5] where
  metaLength := rfl
  errsLength := rfl
  partsLength := by decide
  isObject := ⟨by decide, by decide, rfl, rfl⟩
  distinct := by decide
  enough := le_rfl
  answered := by decide
  copies := by
    intro place isPlace
    simp only [mem_cons, not_mem_nil, or_false] at isPlace
    rcases isPlace with rfl | rfl | rfl
    all_goals exact ⟨_, rfl, ⟨by decide, by decide, rfl, rfl⟩, rfl, rfl, rfl⟩
  files := by decide

theorem own_geometry_kept :
    (isObjectDangling .sample (overwrittenCopies (sampleCopy 3 3 1 6 8)) twoDrivesMissing
      oneFileMissing).2 = false := by
  obtain ⟨first, isFirst, _, kept⟩ := recoverable_kept_iff .sample 6 3
    (overwrittenCopies (sampleCopy 3 3 1 6 8)) twoDrivesMissing oneFileMissing (sampleCopy 3 3 4 6 8)
    [3, 4, 5] (overwritten_recoverable _)
  cases isFirst
  exact kept (by decide)

/-- A copy of an older write with less parity comes first, and two drives miss the metadata. -/
theorem stale_geometry_dangling :
    Recoverable 6 3 (overwrittenCopies (sampleCopy 5 1 1 6 7)) twoDrivesMissing oneFileMissing
        (sampleCopy 3 3 4 6 8) [3, 4, 5] ∧
      (isObjectDangling .sample (overwrittenCopies (sampleCopy 5 1 1 6 7)) twoDrivesMissing
        oneFileMissing).2 = true :=
  ⟨overwritten_recoverable _, by decide⟩

/-- The verdict is the same for every order of the parts exactly if the worst parts agree, or
the answers for the metadata keep the object. Parts that are not among the worst are never
looked at. -/
theorem dangling_order_counts_iff (env : Runtime) (metaArr : List FileInfo)
    (errs : List (Option DiskError)) (parts : List (Nat × List Nat)) :
    (∀ order, order.Perm parts → (isObjectDangling env metaArr errs order).2 =
        (isObjectDangling env metaArr errs parts).2) ↔
      WorstPartsAgree parts ∨
        ∀ first, metaArr.find? fileInfoIsValidForMetadata = some first →
          MetaInconclusive errs ∨ ¬ MissingExceeds env first errs parts := by
  constructor
  · intro sameVerdict
    by_contra neither
    simp only [not_or, not_forall, not_not] at neither
    obtain ⟨disagree, first, isFirst, conclusive, exceeds⟩ := neither
    apply disagree
    intro part other worst worst' inconclusive
    by_contra conclusive'
    obtain ⟨order, isPerm, verdict⟩ := worst_first_verdict isFirst conclusive exceeds worst
    obtain ⟨order', isPerm', verdict'⟩ := worst_first_verdict isFirst conclusive exceeds worst'
    rw [sameVerdict order isPerm] at verdict
    rw [sameVerdict order' isPerm'] at verdict'
    exact verdict.1 (verdict'.2 conclusive') inconclusive
  · intro condition order isPerm
    rcases condition with agree | kept
    · unfold isObjectDangling
      rw [worst_count_perm isPerm, dangling_verdict_congr (worst_inconclusive_perm isPerm agree)]
    · cases isFirst : metaArr.find? fileInfoIsValidForMetadata with
      | none =>
        unfold isObjectDangling
        rw [not_valid_verdict isFirst, not_valid_verdict isFirst, worst_count_perm isPerm]
      | some first =>
        rw [Bool.eq_iff_iff, dangling_iff isFirst, dangling_iff isFirst,
          missing_exceeds_perm isPerm]
        rcases kept first isFirst with inconclusive | covered
        · simp [inconclusive]
        · simp [covered]

/-- Two parts miss as many files, and an answer for one of them proves nothing. -/
theorem part_order_counts :
    [(2, [1, 4, 4, 1]), (1, [1, 4, 4, 2])].Perm [(1, [1, 4, 4, 2]), (2, [1, 4, 4, 1])] ∧
      (isObjectDangling .sample [sampleCopy 2 2 1 4 8, .default, .default, .default]
        [none, some .fileNotFound, some .fileNotFound, some .fileNotFound]
        [(1, [1, 4, 4, 2]), (2, [1, 4, 4, 1])]).2 = false ∧
      (isObjectDangling .sample [sampleCopy 2 2 1 4 8, .default, .default, .default]
        [none, some .fileNotFound, some .fileNotFound, some .fileNotFound]
        [(2, [1, 4, 4, 1]), (1, [1, 4, 4, 2])]).2 = true :=
  ⟨.swap _ _ _, by decide, by decide⟩

end Rustfs.Ecstore
