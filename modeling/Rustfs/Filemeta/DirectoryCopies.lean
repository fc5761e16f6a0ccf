import Rustfs.Filemeta.Metacache
import Rustfs.Filemeta.MergeSoundness
import Rustfs.Library.XxHash

/-!
# Copies of one object beside a directory

Some slots of a name hold copies of one `xl.meta`, others a directory entry of the same name
or bytes that do not decode. `resolve` walks the slots in their order: what it has found after
each slot depends on the copies and directories met so far, and from that on what the whole
walk returns. The merge of differing version lists is not reached from such slots, since all
copies carry one list.
-/

namespace Rustfs.Filemeta

open List Library.Quorum MetaCacheEntry

/-- The version list of one disk, as `xl_meta` reads it. -/
def MetaCacheEntry.versionList (hash : Hash) (entry : MetaCacheEntry) :
    List FileMetaShallowVersion :=
  match entry.xlMeta hash with
  | .ok (xl, _) => xl.versions
  | .error _ => []

variable {hash : Hash} {entry : MetaCacheEntry} {entries : List (Option MetaCacheEntry)}

theorem mem_present : entry ∈ entries.filterMap id ↔ some entry ∈ entries := by
  simp

theorem unnamed_unresolved (hash : Hash) (strict : Bool) (entries : List MetaCacheEntry)
    (unnamed : ∀ entry ∈ entries, entry.name = "") (state : Resolution) :
    entries.foldl (Resolution.examine hash strict) state = state := by
  induction entries generalizing state with
  | nil => rfl
  | cons entry rest ih =>
    rw [forall_mem_cons] at unnamed
    have skipped : state.examine hash strict entry = state := by
      rw [Resolution.examine, unnamed.1]
      rfl
    rw [foldl_cons, skipped, ih unnamed.2]

def MetaCacheEntry.CachesItsBytes (hash : Hash) (entry : MetaCacheEntry) : Prop :=
  ∀ fileMeta, entry.cached = some fileMeta → FileMeta.load hash entry.metadata = .ok fileMeta

def MetaCacheEntry.isCopy (bytes : Bytes) (entry : MetaCacheEntry) : Bool :=
  decide (entry.metadata = bytes)

def copies (bytes : Bytes) (entries : List (Option MetaCacheEntry)) : Nat :=
  (entries.filterMap id).countP (MetaCacheEntry.isCopy bytes)

def directories (entries : List (Option MetaCacheEntry)) : Nat :=
  (entries.filterMap id).countP MetaCacheEntry.isDir

structure CopySlot (hash : Hash) (name : String) (bytes : Bytes) (entry : MetaCacheEntry) : Prop where
  named : entry.name = name
  caches : entry.CachesItsBytes hash
  kind : entry.metadata = bytes ∨ entry.isDir = true ∨
    ∃ error, FileMeta.load hash entry.metadata = .error error

/-- The walk has found an object with this version list. -/
def ResolvesTo (hash : Hash) (versions : List FileMetaShallowVersion) (result : Option MetaCacheEntry) :
    Prop :=
  ∃ entry, result = some entry ∧ entry.isDir = false ∧ entry.versionList hash = versions

theorem load_empty (hash : Hash) : FileMeta.load hash [] = .error .fileCorrupt := rfl

section Slots

variable {hash : Hash} {name : String} {bytes : Bytes} {xl : FileMeta} {entry : MetaCacheEntry}

theorem copy_not_empty (decodes : FileMeta.load hash bytes = .ok xl) : bytes.isEmpty = false := by
  cases bytes with
  | nil => cases (load_empty hash).symm.trans decodes
  | cons => rfl

theorem copy_is_file (decodes : FileMeta.load hash bytes = .ok xl) (copy : entry.metadata = bytes) :
    entry.isDir = false := by
  rw [isDir, copy, copy_not_empty decodes]
  rfl

theorem copy_xl_meta (decodes : FileMeta.load hash bytes = .ok xl)
    (caches : entry.CachesItsBytes hash) (copy : entry.metadata = bytes) :
    entry.xlMeta hash = .ok (xl, { entry with cached := some xl }) := by
  rw [xlMeta, copy_is_file decodes copy]
  simp only [Bool.false_eq_true, if_false]
  cases cached : entry.cached with
  | none =>
    rw [copy, copy_not_empty decodes, decodes]
    rfl
  | some fileMeta =>
    have same := caches fileMeta cached
    rw [copy, decodes] at same
    cases same
    simp only
    rw [← cached]

theorem undecodable_xl_meta (caches : entry.CachesItsBytes hash) {error : Error}
    (undecodable : FileMeta.load hash entry.metadata = .error error) :
    ∃ failure, entry.xlMeta hash = .error failure := by
  rw [xlMeta]
  split
  · exact ⟨_, rfl⟩
  · cases cached : entry.cached with
    | some fileMeta => cases (caches fileMeta cached).symm.trans undecodable
    | none =>
      simp only
      split
      · exact ⟨_, rfl⟩
      · rw [undecodable]
        exact ⟨_, rfl⟩

theorem directory_not_cached (caches : entry.CachesItsBytes hash) (dir : entry.isDir = true) :
    entry.cached = none := by
  rw [isDir, Bool.and_eq_true, List.isEmpty_iff] at dir
  cases cached : entry.cached with
  | none => rfl
  | some fileMeta =>
    have loaded := caches fileMeta cached
    rw [dir.1] at loaded
    cases (load_empty hash).symm.trans loaded

theorem match_same_versions (strict : Bool) (entry other : MetaCacheEntry)
    (versions : List FileMetaShallowVersion) :
    MetaCacheEntry.matchVersions strict entry other none (versions.zip versions) =
      (some entry, true) := by
  induction versions with
  | nil => rfl
  | cons version rest ih =>
    rw [zip_cons_cons, matchVersions, if_pos rfl]
    exact ih

end Slots

/-- What the walk knows after some slots: a directory among them stays selected; without one
all copies agree with the selected copy. -/
structure Walked (bytes : Bytes) (name : String) (xl : FileMeta) (seen : List MetaCacheEntry)
    (state : Resolution) : Prop where
  dirs : state.dirExists = seen.countP MetaCacheEntry.isDir
  valid : state.objsValid = seen.countP (MetaCacheEntry.isCopy bytes)
  hidden : 0 < seen.countP MetaCacheEntry.isDir → ∃ dir, state.selected = some dir ∧
    dir.isDir = true ∧ dir.cached = none ∧ dir.name = name
  agreed : seen.countP MetaCacheEntry.isDir = 0 → state.objsAgree = state.objsValid ∧
    ((state.objsValid = 0 ∧ state.selected = none) ∨
      0 < state.objsValid ∧ ∃ copy, state.selected = some copy ∧ copy.isDir = false ∧
        copy.cached = some xl ∧ copy.name = name)

section Walk

variable {hash : Hash} {name : String} {bytes : Bytes} {xl : FileMeta} {seen : List MetaCacheEntry}
  {state : Resolution} {entry : MetaCacheEntry} {params : MetadataResolutionParams}
  {versions : List FileMetaShallowVersion}

theorem walked_start : Walked bytes name xl [] .start where
  dirs := rfl
  valid := rfl
  hidden := fun positive => by cases positive
  agreed := fun _ => ⟨rfl, .inl ⟨rfl, rfl⟩⟩

theorem walked_directory (walked : Walked bytes name xl seen state)
    (decodes : FileMeta.load hash bytes = .ok xl) (named : entry.name = name)
    (caches : entry.CachesItsBytes hash) (dir : entry.isDir = true) :
    Walked bytes name xl (seen ++ [entry])
      { state with dirExists := state.dirExists + 1, selected := some entry } := by
  have counted : (seen ++ [entry]).countP isDir =
      seen.countP isDir + 1 := by
    rw [countP_append, countP_singleton, dir, if_pos rfl]
  have noCopy : entry.isCopy bytes = false := by
    rw [isCopy, decide_eq_false_iff_not]
    intro copy
    rw [copy_is_file decodes copy] at dir
    cases dir
  refine ⟨?_, ?_, fun _ => ⟨entry, rfl, dir, directory_not_cached caches dir, named⟩, ?_⟩
  · rw [counted, ← walked.dirs]
  · rw [countP_append, countP_singleton, noCopy, ← walked.valid]
    rfl
  · intro vacant
    rw [counted] at vacant
    cases vacant

theorem walked_skip (walked : Walked bytes name xl seen state) (file : entry.isDir = false)
    (noCopy : entry.isCopy bytes = false) : Walked bytes name xl (seen ++ [entry]) state := by
  have dirs : (seen ++ [entry]).countP isDir = seen.countP isDir := by
    rw [countP_append, countP_singleton, file]
    rfl
  refine ⟨?_, ?_, ?_, ?_⟩
  · rw [dirs, walked.dirs]
  · rw [countP_append, countP_singleton, noCopy, walked.valid]
    rfl
  · rw [dirs]
    exact walked.hidden
  · rw [dirs]
    exact walked.agreed

theorem copy_counts (decodes : FileMeta.load hash bytes = .ok xl) (copy : entry.metadata = bytes)
    (seen : List MetaCacheEntry) :
    (seen ++ [entry]).countP MetaCacheEntry.isDir = seen.countP MetaCacheEntry.isDir ∧
      (seen ++ [entry]).countP (MetaCacheEntry.isCopy bytes) =
        seen.countP (MetaCacheEntry.isCopy bytes) + 1 := by
  have isCopy : entry.isCopy bytes = true := by
    rw [isCopy, copy, decide_eq_true rfl]
  rw [countP_append, countP_append, countP_singleton, countP_singleton,
    copy_is_file decodes copy, isCopy]
  exact ⟨rfl, rfl⟩

theorem walked_agreeing (walked : Walked bytes name xl seen state)
    (decodes : FileMeta.load hash bytes = .ok xl) (named : entry.name = name)
    (copy : entry.metadata = bytes) (visible : seen.countP MetaCacheEntry.isDir = 0)
    (candidates : List (List FileMetaShallowVersion)) :
    Walked bytes name xl (seen ++ [entry])
      { state with
        selected := some { entry with cached := some xl }
        objsAgree := state.objsAgree + 1
        objsValid := state.objsValid + 1
        candidates := candidates } := by
  obtain ⟨dirs, counted⟩ := copy_counts decodes copy seen
  have file : { entry with cached := some xl : MetaCacheEntry }.isDir = false :=
    copy_is_file decodes copy
  refine ⟨?_, ?_, ?_, fun _ => ⟨?_, .inr ⟨Nat.succ_pos _, _, rfl, file, rfl, named⟩⟩⟩
  · rw [dirs, ← walked.dirs]
  · rw [counted, ← walked.valid]
  · intro positive
    rw [dirs, visible] at positive
    cases positive
  · exact congrArg (· + 1) (walked.agreed visible).1

theorem walked_hidden (walked : Walked bytes name xl seen state)
    (decodes : FileMeta.load hash bytes = .ok xl) (copy : entry.metadata = bytes)
    (shadowed : 0 < seen.countP MetaCacheEntry.isDir)
    (candidates : List (List FileMetaShallowVersion)) :
    Walked bytes name xl (seen ++ [entry])
      { state with objsValid := state.objsValid + 1, candidates := candidates } := by
  obtain ⟨dirs, counted⟩ := copy_counts decodes copy seen
  refine ⟨?_, ?_, fun _ => walked.hidden shadowed, ?_⟩
  · rw [dirs, ← walked.dirs]
  · rw [counted, ← walked.valid]
  · intro visible
    rw [dirs] at visible
    exact absurd visible (Nat.pos_iff_ne_zero.1 shadowed)

theorem walked_copy (strict : Bool) (walked : Walked bytes name xl seen state)
    (decodes : FileMeta.load hash bytes = .ok xl) (named : entry.name = name)
    (copy : entry.metadata = bytes) :
    Walked bytes name xl (seen ++ [entry])
      (state.reconcile hash strict xl { entry with cached := some xl }) := by
  have file : { entry with cached := some xl : MetaCacheEntry }.isDir = false :=
    copy_is_file decodes copy
  rw [Resolution.reconcile]
  rcases Nat.eq_zero_or_pos (seen.countP isDir) with visible | shadowed
  · obtain ⟨agrees, chosen⟩ := walked.agreed visible
    have agreeing := walked_agreeing walked decodes named copy visible
      (state.candidates ++ [xl.versions])
    rcases chosen with ⟨noneValid, unselected⟩ |
      ⟨_, selected, isSelected, selectedFile, cached, isNamed⟩
    · rw [agrees, noneValid] at agreeing
      rw [unselected, noneValid]
      exact agreeing
    · have matched : matchesEntry hash { entry with cached := some xl }
          (some selected) strict = (some { entry with cached := some xl }, true) := by
        rw [matchesEntry]
        rw [if_neg (not_not.2 (named.trans isNamed.symm)), selectedFile, file]
        simp only [Bool.or_self, Bool.false_eq_true, if_false, fileMeta, cached,
          matchFileMeta, ne_eq, not_true_eq_false]
        exact match_same_versions strict _ _ xl.versions
      rw [isSelected]
      dsimp only
      rw [matched]
      exact agreeing
  · obtain ⟨dir, isSelected, isDir, _, isNamed⟩ := walked.hidden shadowed
    have differs : (matchesEntry hash { entry with cached := some xl }
        (some dir) strict).2 = false := by
      rw [matchesEntry]
      rw [if_neg (not_not.2 (named.trans isNamed.symm)), isDir, file]
      rfl
    rw [isSelected]
    dsimp only
    split
    · rename_i matched
      rw [matched] at differs
      cases differs
    · have hidden := walked_hidden walked decodes copy shadowed (state.candidates ++ [xl.versions])
      rw [isSelected] at hidden
      exact hidden

theorem walked_step (strict : Bool) (walked : Walked bytes name xl seen state)
    (decodes : FileMeta.load hash bytes = .ok xl) (filled : name ≠ "")
    (slot : CopySlot hash name bytes entry) :
    Walked bytes name xl (seen ++ [entry]) (state.examine hash strict entry) := by
  have isFilled : entry.name.isEmpty = false := by
    rw [slot.named]
    simpa [String.isEmpty_iff] using filled
  rw [Resolution.examine, isFilled]
  simp only [Bool.false_eq_true, if_false]
  split
  · rename_i dir
    exact walked_directory walked decodes slot.named slot.caches dir
  · rename_i file
    rcases Decidable.em (entry.metadata = bytes) with copy | other
    · rw [copy_xl_meta decodes slot.caches copy]
      exact walked_copy strict walked decodes slot.named copy
    · rcases slot.kind with copy | dir | ⟨error, undecodable⟩
      · exact absurd copy other
      · exact absurd dir file
      · obtain ⟨failure, failed⟩ := undecodable_xl_meta slot.caches undecodable
        rw [failed]
        exact walked_skip walked (Bool.eq_false_iff.2 file) (decide_eq_false other)

theorem walked_run (strict : Bool) (decodes : FileMeta.load hash bytes = .ok xl) (filled : name ≠ "")
    (rest : List MetaCacheEntry) :
    ∀ (seen : List MetaCacheEntry) (state : Resolution), Walked bytes name xl seen state →
      (∀ entry ∈ rest, CopySlot hash name bytes entry) →
      Walked bytes name xl (seen ++ rest) (rest.foldl (Resolution.examine hash strict) state) := by
  induction rest with
  | nil =>
    intro seen state walked _
    rw [append_nil]
    exact walked
  | cons entry rest ih =>
    intro seen state walked slots
    have first := walked_step strict walked decodes filled (slots entry mem_cons_self)
    have behind := ih _ _ first fun other member => slots other (mem_cons_of_mem _ member)
    rw [append_assoc] at behind
    exact behind

variable {entries : List (Option MetaCacheEntry)}

/-- The answer from where the walk ends. -/
def answer (hash : Hash) (order : VoteOrder) (params : MetadataResolutionParams)
    (state : Resolution) : Option MetaCacheEntry :=
  match state.selected with
  | none => none
  | some selected =>
    if selected.isDir && params.dirQuorum ≤ state.dirExists then some selected
    else if state.objsValid < params.objQuorum then none
    else if state.objsAgree = state.objsValid && params.objQuorum ≤ state.objsAgree then
      some selected
    else mergeSelected hash (fun _ => none) order params false state.candidates selected

theorem resolve_answer (order : VoteOrder) (params : MetadataResolutionParams)
    (entries : List (Option MetaCacheEntry)) :
    resolve hash order params entries =
      answer hash order params
        ((entries.filterMap id).foldl (Resolution.examine hash params.strict) .start) := by
  cases entries with
  | nil => rfl
  | cons => rfl

variable {seen : List MetaCacheEntry}

theorem agreed_answer (order : VoteOrder) (walked : Walked bytes name xl seen state)
    (quorum : params.objQuorum ≤ seen.countP (MetaCacheEntry.isCopy bytes))
    (present : 0 < seen.countP (MetaCacheEntry.isCopy bytes))
    (visible : seen.countP MetaCacheEntry.isDir = 0) :
    ResolvesTo hash xl.versions (answer hash order params state) := by
  obtain ⟨agrees, chosen⟩ := walked.agreed visible
  rw [← walked.valid] at quorum present
  rcases chosen with ⟨noneValid, _⟩ | ⟨_, copy, isSelected, file, cached, _⟩
  · exact absurd noneValid (Nat.pos_iff_ne_zero.1 present)
  · refine ⟨copy, ?_, file, ?_⟩
    · unfold answer
      rw [isSelected]
      dsimp only
      rw [file, Bool.false_and, if_neg Bool.false_ne_true, if_neg (Nat.not_lt.2 quorum), agrees,
        decide_eq_true rfl, decide_eq_true quorum]
      rfl
    · rw [versionList, xlMeta, file, cached]
      rfl

theorem hidden_answer (order : VoteOrder) (walked : Walked bytes name xl seen state)
    (shadowed : 0 < seen.countP MetaCacheEntry.isDir) :
    ¬ ResolvesTo hash versions (answer hash order params state) := by
  rintro ⟨result, isResult, file, _⟩
  obtain ⟨dir, isSelected, isDir, notCached, _⟩ := walked.hidden shadowed
  have notDir : some dir ≠ some result := by
    intro same
    cases same
    rw [isDir] at file
    cases file
  unfold answer at isResult
  rw [isSelected] at isResult
  dsimp only at isResult
  split at isResult
  · exact notDir isResult
  · split at isResult
    · cases isResult
    · split at isResult
      · exact notDir isResult
      · rw [mergeSelected, notCached] at isResult
        cases isResult

theorem unselected_answer (order : VoteOrder) (unselected : state.selected = none) :
    ¬ ResolvesTo hash versions (answer hash order params state) := by
  rintro ⟨result, isResult, _⟩
  unfold answer at isResult
  rw [unselected] at isResult
  cases isResult

/-- A quorum of copies with a readable `xl.meta` is found exactly if no slot is a directory:
one directory hides any number of copies. Slots with other bytes that do not decode are passed
over. -/
theorem copies_found_iff_no_directory (hash : Hash) (order : VoteOrder)
    (params : MetadataResolutionParams) (name : String) (bytes : Bytes) (xl : FileMeta)
    (entries : List (Option MetaCacheEntry)) (decodes : FileMeta.load hash bytes = .ok xl)
    (slots : ∀ entry, some entry ∈ entries → CopySlot hash name bytes entry)
    (quorum : params.objQuorum ≤ copies bytes entries) :
    ResolvesTo hash xl.versions (resolve hash order params entries) ↔
      name ≠ "" ∧ 0 < copies bytes entries ∧ directories entries = 0 := by
  rw [resolve_answer]
  have present : ∀ entry ∈ entries.filterMap id, CopySlot hash name bytes entry :=
    fun entry member => slots entry (mem_present.1 member)
  by_cases unnamed : name = ""
  · rw [unnamed_unresolved hash params.strict _ fun entry member =>
      (present entry member).named.trans unnamed]
    exact iff_of_false (unselected_answer order rfl) fun condition => condition.1 unnamed
  · have walked := walked_run params.strict decodes unnamed (entries.filterMap id) [] .start
      walked_start present
    rw [nil_append] at walked
    constructor
    · intro found
      refine ⟨unnamed, Nat.pos_iff_ne_zero.2 fun noCopies => ?_, ?_⟩
      · rcases Nat.eq_zero_or_pos (directories entries) with visible | shadowed
        · obtain ⟨_, ⟨_, unselected⟩ | ⟨positive, _⟩⟩ := walked.agreed visible
          · exact unselected_answer order unselected found
          · rw [walked.valid] at positive
            exact absurd noCopies (Nat.pos_iff_ne_zero.1 positive)
        · exact hidden_answer order walked shadowed found
      · rcases Nat.eq_zero_or_pos (directories entries) with visible | shadowed
        · exact visible
        · exact absurd found (hidden_answer order walked shadowed)
    · rintro ⟨_, carried, visible⟩
      exact agreed_answer order walked quorum carried visible

end Walk

def folderFile : FileMeta := ⟨[unionVersion 0xA 1705312300 0x11], [], 3⟩

def folderCopy (hash : Hash) : MetaCacheEntry := ⟨"folder/", folderFile.marshalMsg hash, none, false⟩

def folderDirectory : MetaCacheEntry := ⟨"folder/", [], none, false⟩

def folderParams : MetadataResolutionParams := ⟨2, 2, 0, false, 0⟩

theorem folder_decodes (hash : Hash) :
    FileMeta.load hash (folderFile.marshalMsg hash) = .ok folderFile.reloaded :=
  load_marshal (by decide) (by decide) rfl

theorem folder_slots (hash : Hash) (entries : List (Option MetaCacheEntry))
    (known : ∀ entry, some entry ∈ entries → entry = folderCopy hash ∨ entry = folderDirectory) :
    ∀ entry, some entry ∈ entries →
      CopySlot hash "folder/" (folderFile.marshalMsg hash) entry := by
  intro entry member
  rcases known entry member with rfl | rfl
  · exact ⟨rfl, (fun _ cached => by cases cached), .inl rfl⟩
  · exact ⟨rfl, (fun _ cached => by cases cached), .inr (.inl (by decide))⟩

theorem folder_not_empty (hash : Hash) : folderFile.marshalMsg hash ≠ [] := by
  intro empty
  have filled := copy_not_empty (folder_decodes hash)
  rw [empty] at filled
  cases filled

def xxh64Hash : Hash := Library.XxHash.xxh64 0

theorem folder_copy_counts (hash : Hash) :
    (folderCopy hash).isCopy (folderFile.marshalMsg hash) = true ∧ (folderCopy hash).isDir = false :=
  ⟨decide_eq_true rfl, copy_is_file (folder_decodes hash) rfl⟩

theorem folder_directory_counts (hash : Hash) :
    folderDirectory.isCopy (folderFile.marshalMsg hash) = false ∧ folderDirectory.isDir = true :=
  ⟨decide_eq_false (folder_not_empty hash).symm, by decide⟩

def foundSlots : List (Option MetaCacheEntry) :=
  [some (folderCopy xxh64Hash), none, some (folderCopy xxh64Hash)]

def hiddenSlots : List (Option MetaCacheEntry) :=
  [some (folderCopy xxh64Hash), some (folderCopy xxh64Hash), some folderDirectory]

theorem folder_copies_found :
    ResolvesTo xxh64Hash folderFile.reloaded.versions
      (resolve xxh64Hash .fixed folderParams foundSlots) ∧ folderFile.reloaded.versions ≠ [] := by
  obtain ⟨isCopy, file⟩ := folder_copy_counts xxh64Hash
  have count : copies (folderFile.marshalMsg xxh64Hash) foundSlots = 2 := by
    change List.countP _ [folderCopy xxh64Hash, folderCopy xxh64Hash] = 2
    simp [isCopy]
  have visible : directories foundSlots = 0 := by
    change List.countP _ [folderCopy xxh64Hash, folderCopy xxh64Hash] = 0
    simp [file]
  have slots := folder_slots xxh64Hash foundSlots (by
    intro entry member
    simp only [foundSlots, mem_cons, Option.some.injEq, reduceCtorEq, not_mem_nil,
      or_false, false_or] at member
    exact .inl (member.elim id id))
  have found := copies_found_iff_no_directory xxh64Hash .fixed folderParams "folder/" _
    folderFile.reloaded foundSlots (folder_decodes xxh64Hash) slots (count ▸ Nat.le_refl 2)
  exact ⟨found.2 ⟨by decide, count ▸ Nat.succ_pos 1, visible⟩, by decide⟩

/-- A directory behind two copies is the answer, below its own quorum. -/
theorem directory_hides_the_copies :
    ¬ ∀ (hash : Hash) (order : VoteOrder) (params : MetadataResolutionParams) (name : String)
      (bytes : Bytes) (xl : FileMeta) (entries : List (Option MetaCacheEntry)),
      params.requestedVersions = 0 → name ≠ "" → FileMeta.load hash bytes = .ok xl →
      xl.versions ≠ [] → (∀ entry, some entry ∈ entries → CopySlot hash name bytes entry) →
      0 < copies bytes entries → params.objQuorum ≤ copies bytes entries →
      directories entries < params.dirQuorum →
      ResolvesTo hash xl.versions (resolve hash order params entries) := by
  intro found
  obtain ⟨isCopy, file⟩ := folder_copy_counts xxh64Hash
  obtain ⟨noCopy, isDir⟩ := folder_directory_counts xxh64Hash
  have slots := folder_slots xxh64Hash hiddenSlots (by
    intro entry member
    simp only [hiddenSlots, mem_cons, Option.some.injEq, not_mem_nil, or_false] at member
    rcases member with copy | copy | dir
    · exact .inl copy
    · exact .inl copy
    · exact .inr dir)
  have count : copies (folderFile.marshalMsg xxh64Hash) hiddenSlots = 2 := by
    change List.countP _ [folderCopy xxh64Hash, folderCopy xxh64Hash, folderDirectory] = 2
    simp [isCopy, noCopy]
  have dirs : directories hiddenSlots = 1 := by
    change List.countP _ [folderCopy xxh64Hash, folderCopy xxh64Hash, folderDirectory] = 1
    simp [file, isDir]
  have resolved := found xxh64Hash .fixed folderParams "folder/" _ folderFile.reloaded hiddenSlots rfl
    (by decide) (folder_decodes _) (by decide) slots (count ▸ Nat.succ_pos 1)
    (count ▸ Nat.le_refl 2) (dirs ▸ Nat.lt_succ_self 1)
  have walked := walked_run false (folder_decodes xxh64Hash) (by decide) (hiddenSlots.filterMap id) []
    .start walked_start fun entry member => slots entry (mem_present.1 member)
  rw [resolve_answer] at resolved
  refine hidden_answer .fixed walked ?_ resolved
  change 0 < directories hiddenSlots
  exact Nat.succ_pos 0

end Rustfs.Filemeta
