import Rustfs.Library.PathOrder
import Rustfs.Library.Runs
import Mathlib.Data.List.Sort
import Mathlib.Data.String.Basic

/-!
# The forward sweep of the folder scanner

`crates/scanner/src/scanner_folder.rs` and the coverage receipt of
`crates/scanner/src/data_usage_define.rs`. A sweep visits the folders of a bucket
depth first, the children of a folder in the order of their paths. It records the
path of every child it completes as its coverage frontier; when it is interrupted
the frontier is sealed into the cache, and the next run passes over the folders
that the frontier test takes for covered and the old cache still knows.

The usage cache enters through `find` alone, and a folder is not compacted. Objects,
healing and the order of other sweeps are left out.
-/

namespace Rustfs.Scanner

open List
open Library (Along Precedes Overtakes joined)

variable {path : String}

section

/-- A name that `read_dir` lists and `scan_folder` does not pass over. -/
structure FolderName where
  name : String
  nonempty : name ≠ ""
  slashFree : '/' ∉ name.toList
  proper : name ≠ "." ∧ name ≠ ".."

inductive Folder
  | node (name : FolderName) (folders : List Folder)

namespace Folder

def name : Folder → FolderName
  | node name _ => name

def folders : Folder → List Folder
  | node _ folders => folders

end Folder

/-- `path_join_buf` of a folder and the name of an entry. -/
def entryName (folder : String) (name : FolderName) : String := folder ++ "/" ++ name.name

inductive FolderResumeMatch
  | exact
  | descendant
  deriving DecidableEq

inductive FolderResumeOrder
  | noHint
  | used
  | stale
  deriving DecidableEq

def folderResumeMatch (folderName resumeAfter : String) : Option FolderResumeMatch :=
  if resumeAfter = folderName then some .exact
  else
    ((resumeAfter.toList.dropPrefix? folderName.toList).filter fun suffix =>
      suffix.head? = some '/').map fun _ => .descendant

def orderItemsForResume {Item : Type} (items : List Item) (resumeAfter : Option String)
    (name : Item → String) : List Item × FolderResumeOrder :=
  let sorted := items.insertionSort fun left right => name left ≤ name right
  match resumeAfter.filter fun resumeAfter => resumeAfter ≠ "" with
  | none => (sorted, .noHint)
  | some resumeAfter =>
    match sorted.zipIdx.findSome? fun item =>
      (folderResumeMatch (name item.1) resumeAfter).map fun resumeMatch => (item.2, resumeMatch) with
    | none => (sorted, .stale)
    | some (resumeIndex, resumeMatch) =>
      let rotateBy :=
        match resumeMatch with
        | .exact => resumeIndex + 1
        | .descendant => resumeIndex
      (if rotateBy < sorted.length then sorted.drop rotateBy ++ sorted.take rotateBy else sorted,
        .used)

inductive ScanStep
  | started (folder : String)
  | completed (folder : String)
  | skipped (folder : String)
  deriving DecidableEq

/-- A queued child and what its own scan does. -/
structure QueuedFolder where
  name : String
  visit : List ScanStep

/-- The test by which a forward sweep takes over a child from the old cache. -/
def skipsCovered (resumeFrontier : Option String) (oldFinds : String → Bool) (folder : String) : Bool :=
  (resumeFrontier.any fun resume =>
      folder ≤ resume && folderResumeMatch folder resume ≠ some .descendant) &&
    oldFinds folder

def scanChild (resumeFrontier : Option String) (oldFinds : String → Bool) (queued : QueuedFolder) :
    List ScanStep :=
  if skipsCovered resumeFrontier oldFinds queued.name then [.skipped queued.name]
  else queued.visit ++ [.completed queued.name]

mutual

/-- The steps of `scan_folder` on the folder at a path, when nothing interrupts it. -/
def scanFolder (resumeFrontier : Option String) (oldFinds : String → Bool) (path : String) :
    Folder → List ScanStep
  | .node _ folders =>
    .started path ::
      (orderItemsForResume (queueFolders resumeFrontier oldFinds path folders) none
        QueuedFolder.name).1.flatMap (scanChild resumeFrontier oldFinds)

def queueFolders (resumeFrontier : Option String) (oldFinds : String → Bool) (path : String) :
    List Folder → List QueuedFolder
  | [] => []
  | folder :: folders =>
    ⟨entryName path folder.name,
      scanFolder resumeFrontier oldFinds (entryName path folder.name) folder⟩ ::
        queueFolders resumeFrontier oldFinds path folders

end

structure FolderScanner where
  coverageFrontier : Option String
  coverageGap : Bool

namespace FolderScanner

def recordCompletedChild (self : FolderScanner) (folder : String) (healthy : Bool) : FolderScanner where
  coverageGap := self.coverageGap || !healthy
  coverageFrontier := if self.coverageGap || !healthy then self.coverageFrontier else some folder

def record (healthy : String → Bool) (self : FolderScanner) : ScanStep → FolderScanner
  | .completed folder => self.recordCompletedChild folder (healthy folder)
  | .started _ | .skipped _ => self

end FolderScanner

def sealScanFrontier (newFinds : String → Bool) (frontier : Option String) : Option String :=
  frontier.filter fun path => path.utf8ByteSize ≤ 16 * 1024 && newFinds path

/-- A sweep between two runs: the sealed frontier, and the folders completed so far. -/
structure Sweep where
  receipt : Option String
  completed : List String

/-- What one run meets: the old cache, the cache it leaves, the health of the
scans, and the number of its steps before it is interrupted. -/
structure SweepRun where
  oldFinds : String → Bool
  newFinds : String → Bool
  healthy : String → Bool
  steps : Nat

def ScanStep.completedFolder : ScanStep → Option String
  | .completed folder => some folder
  | .started _ | .skipped _ => none

namespace Sweep

def new : Sweep := ⟨none, []⟩

def trace (bucket : String) (folder : Folder) (self : Sweep) (oldFinds : String → Bool) :
    List ScanStep :=
  scanFolder self.receipt oldFinds bucket folder

/-- One run from the last receipt, up to its interruption. -/
def resume (bucket : String) (folder : Folder) (self : Sweep) (run : SweepRun) : Sweep where
  receipt := sealScanFrontier run.newFinds
    (((self.trace bucket folder run.oldFinds).take run.steps).foldl
      (FolderScanner.record run.healthy) ⟨self.receipt, false⟩).coverageFrontier
  completed := self.completed ++
    ((self.trace bucket folder run.oldFinds).take run.steps).filterMap ScanStep.completedFolder

def after (bucket : String) (folder : Folder) (runs : List SweepRun) : Sweep :=
  runs.foldl (resume bucket folder) new

end Sweep

attribute [ext] FolderName

def letters (names : List FolderName) : List (List Char) := names.map fun name => name.name.toList

variable {names others : List FolderName}

theorem letters_injective (same : letters names = letters others) : names = others := by
  refine List.map_injective_iff.2 ?_ same
  intro one two equal
  exact FolderName.ext (String.toList_inj.1 equal)

theorem letters_free (names : List FolderName) : ∀ name ∈ letters names, '/' ∉ name := by
  intro name member
  obtain ⟨folder, _, rfl⟩ := List.mem_map.1 member
  exact folder.slashFree

def pathOf (bucket : String) (names : List FolderName) : String := names.foldl entryName bucket

theorem path_of_append (bucket : String) (names : List FolderName) (name : FolderName) :
    pathOf bucket (names ++ [name]) = entryName (pathOf bucket names) name := by
  simp [pathOf]

theorem path_of_letters (bucket : String) (names : List FolderName) :
    (pathOf bucket names).toList = bucket.toList ++ joined '/' (letters names) := by
  induction names generalizing bucket with
  | nil => simp [pathOf, letters]
  | cons name names ih =>
    have rest := ih (entryName bucket name)
    rw [pathOf] at rest
    rw [pathOf, List.foldl_cons, rest, entryName]
    simp [letters]

theorem path_of_injective {bucket : String}
    (same : pathOf bucket names = pathOf bucket others) : names = others := by
  have written := congrArg String.toList same
  rw [path_of_letters, path_of_letters] at written
  exact letters_injective (Library.joined_injective (letters_free names) (letters_free others)
    (List.append_cancel_left written))

/-- The names lead from a folder to a folder below it. -/
inductive Folder.At : Folder → List FolderName → Folder → Prop
  | here (folder : Folder) : Folder.At folder [] folder
  | inside {folder child found : Folder} {names : List FolderName} (member : child ∈ folder.folders)
      (leads : Folder.At child names found) : Folder.At folder (child.name :: names) found

structure FolderTree where
  root : Folder
  distinct : ∀ names folder, root.At names folder → (folder.folders.map Folder.name).Nodup

namespace FolderTree

variable {tree : FolderTree} {names others : List FolderName} {folder child : Folder}

def Holds (tree : FolderTree) (names : List FolderName) : Prop := ∃ folder, tree.root.At names folder

theorem at_append {start middle found : Folder} (first : start.At names middle)
    (second : middle.At others found) : start.At (names ++ others) found := by
  induction first with
  | here => exact second
  | inside member _ ih => exact .inside member (ih second)

theorem at_split {start found : Folder} (leads : start.At (names ++ others) found) :
    ∃ middle, start.At names middle ∧ middle.At others found := by
  induction names generalizing start with
  | nil => exact ⟨start, .here start, leads⟩
  | cons name names ih =>
    cases leads with
    | inside member rest =>
      obtain ⟨middle, first, second⟩ := ih rest
      exact ⟨middle, .inside member first, second⟩

theorem same_child (tree : FolderTree) (leads : tree.root.At names folder) {one two : Folder}
    (first : one ∈ folder.folders) (second : two ∈ folder.folders) (same : one.name = two.name) :
    one = two :=
  List.inj_on_of_nodup_map (tree.distinct names folder leads) first second same

theorem at_unique (tree : FolderTree) {before : List FolderName} {start one two : Folder}
    (reached : tree.root.At before start) (first : start.At names one) (second : start.At names two) :
    one = two := by
  induction first generalizing before with
  | here =>
    cases second
    rfl
  | @inside start child found names member leads ih =>
    generalize named : child.name = name at second
    cases second with
    | @inside _ other _ _ otherMember otherLeads =>
      obtain rfl := tree.same_child reached member otherMember named
      exact ih (at_append reached (.inside member (.here child))) otherLeads

theorem child_of_at (tree : FolderTree) {name : FolderName} (leads : tree.root.At names folder)
    (held : tree.Holds (names ++ name :: others)) : ∃ child ∈ folder.folders, child.name = name := by
  obtain ⟨found, reaches⟩ := held
  obtain ⟨middle, first, second⟩ := at_split reaches
  obtain rfl := tree.at_unique (.here _) leads first
  cases second with
  | inside member => exact ⟨_, member, rfl⟩

end FolderTree

/-- The folder was completed, or lies in a folder that was skipped. -/
def Done (bucket : String) (before : List ScanStep) (names : List FolderName) : Prop :=
  .completed (pathOf bucket names) ∈ before ∨
    ∃ skipped rest, names = skipped ++ rest ∧ .skipped (pathOf bucket skipped) ∈ before

theorem Done.append {bucket : String} {before : List ScanStep}
    (done : Done bucket before names) (more : List ScanStep) : Done bucket (before ++ more) names := by
  rcases done with completed | ⟨skipped, rest, split, member⟩
  · exact .inl (List.mem_append_left _ completed)
  · exact .inr ⟨skipped, rest, split, List.mem_append_left _ member⟩

/-- Names of which the first differing one is smaller. -/
def Earlier (names others : List FolderName) : Prop := Precedes (letters names) (letters others)

/-- A completed folder comes after everything inside it and everything earlier;
a skipped folder has passed the test. -/
structure InOrder (resumeFrontier : Option String) (oldFinds : String → Bool) (tree : FolderTree)
    (bucket : String) (before : List ScanStep) (step : ScanStep) : Prop where
  completed : ∀ path, step = .completed path → ∃ names, tree.Holds names ∧
    path = pathOf bucket names ∧ ∀ others, tree.Holds others →
      (Earlier others names ∨ ∃ name rest, others = names ++ name :: rest) → Done bucket before others
  skipped : ∀ path, step = .skipped path → skipsCovered resumeFrontier oldFinds path = true ∧
    ∃ names, tree.Holds names ∧ path = pathOf bucket names

theorem earlier_concat {name : FolderName} (earlier : Earlier others (names ++ [name])) :
    Earlier others names ∨ ∃ other rest, others = names ++ other :: rest ∧
      other.name.toList < name.name.toList := by
  have split : letters (names ++ [name]) = letters names ++ [name.name.toList] := by simp [letters]
  rw [Earlier, split] at earlier
  rcases Library.precedes_concat earlier with before | ⟨other, rest, same, less⟩
  · exact .inl before
  · obtain ⟨first, second, rfl, isNames, isRest⟩ := List.map_eq_append_iff.1 same
    obtain ⟨found, tail, rfl, rfl, rfl⟩ := List.map_eq_cons_iff.1 isRest
    obtain rfl := letters_injective isNames
    exact .inr ⟨found, tail, rfl, less⟩

theorem name_le_of_entry_le {one two : FolderName}
    (le : entryName path one ≤ entryName path two) : one.name.toList ≤ two.name.toList := by
  rw [String.le_iff_toList_le] at le
  simp only [entryName, String.toList_append] at le
  exact not_lt.1 fun less => not_lt.2 le (List.append_left_lt less)

theorem entry_name_injective {one two : FolderName}
    (same : entryName path one = entryName path two) : one = two := by
  have first := name_le_of_entry_le (le_of_eq same)
  have second := name_le_of_entry_le (le_of_eq same.symm)
  exact FolderName.ext (String.toList_inj.1 (le_antisymm first second))

section

variable (resumeFrontier : Option String) (oldFinds : String → Bool) (tree : FolderTree)
  (bucket : String)

def queuedOf (path : String) (child : Folder) : QueuedFolder :=
  ⟨entryName path child.name, scanFolder resumeFrontier oldFinds (entryName path child.name) child⟩

theorem queue_folders_eq (path : String) (folders : List Folder) :
    queueFolders resumeFrontier oldFinds path folders =
      folders.map (queuedOf resumeFrontier oldFinds path) := by
  induction folders with
  | nil => rfl
  | cons folder folders ih => rw [queueFolders, ih, List.map_cons, queuedOf]

theorem order_without_hint {Item : Type} (items : List Item) (name : Item → String) :
    (∀ item, item ∈ (orderItemsForResume items none name).1 ↔ item ∈ items) ∧
      (orderItemsForResume items none name).1.Pairwise fun one two => name one ≤ name two := by
  exact ⟨fun item => (List.perm_insertionSort _ items).mem_iff, List.pairwise_insertionSort _ items⟩

def ScansInOrder (folder : Folder) : Prop :=
  ∀ names before, tree.root.At names folder →
    (∀ others, tree.Holds others → Earlier others names → Done bucket before others) →
    Along (InOrder resumeFrontier oldFinds tree bucket) before
        (scanFolder resumeFrontier oldFinds (pathOf bucket names) folder) ∧
      ∀ name rest, tree.Holds (names ++ name :: rest) →
        Done bucket (before ++ scanFolder resumeFrontier oldFinds (pathOf bucket names) folder)
          (names ++ name :: rest)

variable {resumeFrontier oldFinds tree bucket} {names : List FolderName} {folder child : Folder}
  {before : List ScanStep}

theorem scan_child_in_order (leads : tree.root.At names folder) (member : child ∈ folder.folders)
    (inOrder : ScansInOrder resumeFrontier oldFinds tree bucket child)
    (earlier : ∀ others, tree.Holds others → Earlier others (names ++ [child.name]) →
      Done bucket before others) :
    Along (InOrder resumeFrontier oldFinds tree bucket) before
        (scanChild resumeFrontier oldFinds
          (queuedOf resumeFrontier oldFinds (pathOf bucket names) child)) ∧
      ∀ rest, tree.Holds (names ++ child.name :: rest) →
        Done bucket (before ++ scanChild resumeFrontier oldFinds
          (queuedOf resumeFrontier oldFinds (pathOf bucket names) child))
          (names ++ child.name :: rest) := by
  have reached : tree.root.At (names ++ [child.name]) child :=
    FolderTree.at_append leads (.inside member (.here child))
  have split : ∀ rest, names ++ child.name :: rest = (names ++ [child.name]) ++ rest := by simp
  obtain ⟨along, inside⟩ := inOrder _ _ reached earlier
  rw [scanChild, queuedOf, ← path_of_append]
  split
  case isTrue covered =>
    refine ⟨⟨⟨fun path same => (by cases same), ?_⟩, trivial⟩, fun rest _ => ?_⟩
    · rintro path ⟨⟩
      exact ⟨covered, _, ⟨child, reached⟩, rfl⟩
    · exact .inr ⟨_, rest, split rest, List.mem_append_right _ List.mem_cons_self⟩
  case isFalse =>
    constructor
    · refine Library.along_append.2 ⟨along, ⟨⟨?_, fun path same => (by cases same)⟩, trivial⟩⟩
      rintro path ⟨⟩
      refine ⟨_, ⟨child, reached⟩, rfl, fun others held below => ?_⟩
      rcases below with before | ⟨name, rest, rfl⟩
      · exact (earlier others held before).append _
      · exact inside name rest held
    · intro rest held
      rw [split rest] at held ⊢
      cases rest with
      | nil => exact .inl (by simp)
      | cons name rest =>
        rw [← List.append_assoc]
        exact (inside name rest held).append _

theorem scan_queue_in_order (leads : tree.root.At names folder)
    (inOrder : ∀ child ∈ folder.folders, ScansInOrder resumeFrontier oldFinds tree bucket child)
    (before : List ScanStep) (queue : List QueuedFolder)
    (queued : ∀ item ∈ queue, ∃ child ∈ folder.folders,
      item = queuedOf resumeFrontier oldFinds (pathOf bucket names) child)
    (sorted : queue.Pairwise fun one two => one.name ≤ two.name)
    (earlier : ∀ others, tree.Holds others → Earlier others names → Done bucket before others)
    (others : ∀ child ∈ folder.folders,
      queuedOf resumeFrontier oldFinds (pathOf bucket names) child ∈ queue ∨
        ∀ rest, tree.Holds (names ++ child.name :: rest) →
          Done bucket before (names ++ child.name :: rest)) :
    Along (InOrder resumeFrontier oldFinds tree bucket) before (queue.flatMap (scanChild resumeFrontier oldFinds)) ∧
      ∀ child ∈ folder.folders, ∀ rest, tree.Holds (names ++ child.name :: rest) →
        Done bucket (before ++ queue.flatMap (scanChild resumeFrontier oldFinds))
          (names ++ child.name :: rest) := by
  induction queue generalizing before with
  | nil =>
    refine ⟨trivial, fun child member rest held => ?_⟩
    rcases others child member with absent | done
    · cases absent
    · exact (done rest held).append _
  | cons item queue ih =>
    obtain ⟨child, member, rfl⟩ := queued item List.mem_cons_self
    obtain ⟨first, sortedRest⟩ := List.pairwise_cons.1 sorted
    have earlierHere : ∀ one, tree.Holds one → Earlier one (names ++ [child.name]) →
        Done bucket before one := by
      intro one held before
      rcases earlier_concat before with before | ⟨name, rest, rfl, less⟩
      · exact earlier one held before
      obtain ⟨other, otherMember, rfl⟩ := tree.child_of_at leads held
      rcases others other otherMember with waits | done
      · rcases List.mem_cons.1 waits with same | later
        · rw [entry_name_injective (congrArg QueuedFolder.name same)] at less
          exact absurd less (lt_irrefl _)
        · exact absurd (name_le_of_entry_le (first _ later)) (not_le.2 less)
      · exact done rest held
    obtain ⟨along, inside⟩ := scan_child_in_order leads member (inOrder child member) earlierHere
    have othersNext : ∀ other ∈ folder.folders,
        queuedOf resumeFrontier oldFinds (pathOf bucket names) other ∈ queue ∨
          ∀ rest, tree.Holds (names ++ other.name :: rest) →
            Done bucket (before ++ scanChild resumeFrontier oldFinds
              (queuedOf resumeFrontier oldFinds (pathOf bucket names) child))
              (names ++ other.name :: rest) := by
      intro other otherMember
      rcases others other otherMember with waits | done
      · rcases List.mem_cons.1 waits with same | later
        · rw [entry_name_injective (congrArg QueuedFolder.name same)]
          exact .inr inside
        · exact .inl later
      · exact .inr fun rest held => (done rest held).append _
    obtain ⟨alongRest, insideRest⟩ := ih _
      (fun item member => queued item (List.mem_cons_of_mem _ member)) sortedRest
      (fun one held before => (earlier one held before).append _) othersNext
    rw [List.flatMap_cons]
    refine ⟨Library.along_append.2 ⟨along, alongRest⟩, ?_⟩
    rw [← List.append_assoc]
    exact insideRest

theorem scan_node_in_order (name : FolderName) {folders : List Folder}
    (inOrder : ∀ child ∈ folders, ScansInOrder resumeFrontier oldFinds tree bucket child) :
    ScansInOrder resumeFrontier oldFinds tree bucket (.node name folders) := by
  intro names before leads earlier
  have order := order_without_hint
    (queueFolders resumeFrontier oldFinds (pathOf bucket names) folders) QueuedFolder.name
  have whole := scan_queue_in_order leads inOrder (before ++ [.started (pathOf bucket names)])
    (orderItemsForResume (queueFolders resumeFrontier oldFinds (pathOf bucket names) folders) none
      QueuedFolder.name).1
    (fun item queued => by
      rw [order.1, queue_folders_eq, List.mem_map] at queued
      obtain ⟨child, member, rfl⟩ := queued
      exact ⟨child, member, rfl⟩)
    order.2 (fun others held before => (earlier others held before).append _)
    (fun child member => .inl (by
      rw [order.1, queue_folders_eq]
      exact List.mem_map_of_mem member))
  refine ⟨⟨⟨fun path same => (by cases same), fun path same => (by cases same)⟩, whole.1⟩,
    fun name rest held => ?_⟩
  obtain ⟨child, member, rfl⟩ := tree.child_of_at leads held
  have done := whole.2 child member rest held
  rwa [List.append_assoc] at done

mutual

theorem scan_in_order : ∀ folder, ScansInOrder resumeFrontier oldFinds tree bucket folder
  | .node name folders => scan_node_in_order name (all_scan_in_order folders)

theorem all_scan_in_order : ∀ folders : List Folder, ∀ child ∈ folders,
    ScansInOrder resumeFrontier oldFinds tree bucket child
  | [], _, member => absurd member List.not_mem_nil
  | folder :: folders, child, member =>
    (List.mem_cons.1 member).elim (fun same => same ▸ scan_in_order folder)
      (all_scan_in_order folders child)

end

theorem trace_in_order (tree : FolderTree) (bucket : String) (resumeFrontier : Option String)
    (oldFinds : String → Bool) :
    Along (InOrder resumeFrontier oldFinds tree bucket) []
        (scanFolder resumeFrontier oldFinds bucket tree.root) ∧
      ∀ name rest, tree.Holds (name :: rest) →
        Done bucket (scanFolder resumeFrontier oldFinds bucket tree.root) (name :: rest) := by
  have inOrder : ScansInOrder resumeFrontier oldFinds tree bucket tree.root := scan_in_order tree.root
  have whole := inOrder [] [] (.here _) fun _ _ earlier => absurd earlier Library.not_precedes_nil
  simpa [pathOf] using whole

end

end

/-- A folder that has folders is not extended by a sibling's name with a character
before the slash. -/
def FolderTree.Separated (tree : FolderTree) : Prop :=
  ∀ names folder, tree.root.At names folder → ∀ short ∈ folder.folders, ∀ long ∈ folder.folders,
    ∀ letter tail, long.name.name.toList = short.name.name.toList ++ letter :: tail →
      letter < '/' → short.folders = []

/-- The part of the test that looks at the frontier. -/
def frontierCovers (frontier : Option String) (folder : String) : Bool :=
  frontier.any fun resume =>
    folder ≤ resume && folderResumeMatch folder resume ≠ some .descendant

theorem folder_resume_descendant {folder resumeAfter : String} {rest : List Char}
    (below : resumeAfter.toList = folder.toList ++ '/' :: rest) :
    folderResumeMatch folder resumeAfter = some .descendant := by
  have different : resumeAfter ≠ folder := by
    rintro rfl
    simp at below
  rw [folderResumeMatch, if_neg different, below]
  have stripped : (folder.toList ++ '/' :: rest).dropPrefix? folder.toList = some ('/' :: rest) := by
    rw [dropPrefix?_eq_some_iff]
    simp
  simp [stripped]

section

variable {tree : FolderTree} {bucket : String} {names others : List FolderName}

theorem not_overtakes (separated : tree.Separated) (held : tree.Holds names)
    (otherHeld : tree.Holds others) : ¬Overtakes '/' (letters others) (letters names) := by
  intro overtakes
  obtain ⟨shared, name, letter, tail, rest, next, more, less, isLong, isShort⟩ := overtakes.split
  obtain ⟨parent, below, rfl, isShared, isName⟩ := map_eq_append_iff.1 isShort
  obtain ⟨short, inner, rfl, shortName, isInner⟩ := map_eq_cons_iff.1 isName
  obtain ⟨nextName, deeper, rfl, _, _⟩ := map_eq_cons_iff.1 isInner
  obtain ⟨same, beside, rfl, isSame, isBeside⟩ := map_eq_append_iff.1 isLong
  obtain ⟨long, _, rfl, longName, _⟩ := map_eq_cons_iff.1 isBeside
  obtain rfl := letters_injective (isSame.trans isShared.symm)
  obtain ⟨found, leads⟩ := held
  obtain ⟨folder, reached, inside⟩ := FolderTree.at_split leads
  obtain ⟨longChild, longMember, rfl⟩ := tree.child_of_at reached otherHeld
  cases inside with
  | inside member leadsOn =>
    have leafless := separated _ folder reached _ member longChild longMember letter tail
      (by rw [longName, shortName]) less
    cases leadsOn with
    | inside deeperMember =>
      rw [leafless] at deeperMember
      cases deeperMember

theorem covers_only_earlier (separated : tree.Separated) (held : tree.Holds names)
    (otherHeld : tree.Holds others)
    (covers : frontierCovers (some (pathOf bucket names)) (pathOf bucket others) = true) :
    others = names ∨ Earlier others names := by
  simp only [frontierCovers, Option.any_some, Bool.and_eq_true, decide_eq_true_eq] at covers
  obtain ⟨le, notAncestor⟩ := covers
  rw [String.le_iff_toList_le, path_of_letters, path_of_letters] at le
  have joinedLe : joined '/' (letters others) ≤ joined '/' (letters names) :=
    not_lt.1 fun less => not_lt.2 le (append_left_lt less)
  rcases Library.joined_le_cases (letters_free others) joinedLe with leads | precedes | overtakes
  · obtain ⟨rest, split⟩ := leads
    obtain ⟨first, second, rfl, isFirst, isSecond⟩ := map_eq_append_iff.1 split.symm
    obtain rfl := letters_injective isFirst
    cases second with
    | nil => exact .inl (append_nil _).symm
    | cons name second =>
      have below : (pathOf bucket (first ++ name :: second)).toList =
          (pathOf bucket first).toList ++ '/' ::
            (name.name.toList ++ joined '/' (letters second)) := by
        rw [path_of_letters, path_of_letters]
        simp [letters]
      exact absurd (folder_resume_descendant below) notAncestor
  · exact .inr precedes
  · exact absurd overtakes (not_overtakes separated held otherHeld)

end

/-- What the sealed frontier covers has been completed, together with all it holds. This carries
over the runs of a sweep; inside of a run the trace says what is done. -/
structure Covering (tree : FolderTree) (bucket : String) (sweep : Sweep) : Prop where
  covered : ∀ names, tree.Holds names → frontierCovers sweep.receipt (pathOf bucket names) = true →
    pathOf bucket names ∈ sweep.completed
  closed : ∀ names rest, tree.Holds (names ++ rest) → pathOf bucket names ∈ sweep.completed →
    pathOf bucket (names ++ rest) ∈ sweep.completed

section

variable {tree : FolderTree} {bucket : String} {sweep : Sweep}

theorem completed_mem {steps : List ScanStep} :
    path ∈ steps.filterMap ScanStep.completedFolder ↔ .completed path ∈ steps := by
  rw [mem_filterMap]
  constructor
  · rintro ⟨step, member, found⟩
    cases step <;> cases found
    exact member
  · intro member
    exact ⟨_, member, rfl⟩

theorem frontier_cases (healthy : String → Bool) (steps : List ScanStep) (scanner : FolderScanner) :
    (steps.foldl (FolderScanner.record healthy) scanner).coverageFrontier = scanner.coverageFrontier ∨
      ∃ path, (steps.foldl (FolderScanner.record healthy) scanner).coverageFrontier = some path ∧
        .completed path ∈ steps := by
  induction steps generalizing scanner with
  | nil => exact .inl rfl
  | cons step steps ih =>
    rw [foldl_cons]
    rcases ih (scanner.record healthy step) with same | ⟨path, now, member⟩
    · rw [same]
      cases step with
      | started | skipped => exact .inl rfl
      | completed folder =>
        simp only [FolderScanner.record, FolderScanner.recordCompletedChild]
        split
        · exact .inl rfl
        · exact .inr ⟨folder, rfl, mem_cons_self⟩
    · exact .inr ⟨path, now, mem_cons_of_mem _ member⟩

section

variable {oldFinds : String → Bool} {steps later : List ScanStep}
  (covering : Covering tree bucket sweep)
  (split : sweep.trace bucket tree.root oldFinds = steps ++ later)

include covering split

theorem Covering.completed_of_done (held : tree.Holds names) (done : Done bucket steps names) :
    pathOf bucket names ∈ sweep.completed ++ steps.filterMap ScanStep.completedFolder := by
  rcases done with completed | ⟨skipped, rest, rfl, member⟩
  · exact mem_append_right _ (completed_mem.2 completed)
  · refine mem_append_left _ (covering.closed skipped rest held ?_)
    obtain ⟨before, after, rfl⟩ := append_of_mem member
    have along := (trace_in_order tree bucket sweep.receipt oldFinds).1
    rw [← Sweep.trace, split, append_assoc, cons_append] at along
    have covers := (along.at_step.skipped _ rfl).1
    obtain ⟨found, leads⟩ := held
    obtain ⟨folder, reached, _⟩ := FolderTree.at_split leads
    exact covering.covered skipped ⟨folder, reached⟩ (Bool.and_eq_true_iff.1 covers).1

theorem Covering.completed_by_run (completed : .completed path ∈ steps) :
    ∃ names, tree.Holds names ∧ path = pathOf bucket names ∧ ∀ others, tree.Holds others →
      (Earlier others names ∨ ∃ name rest, others = names ++ name :: rest) →
        pathOf bucket others ∈ sweep.completed ++ steps.filterMap ScanStep.completedFolder := by
  obtain ⟨before, after, rfl⟩ := append_of_mem completed
  have along := (trace_in_order tree bucket sweep.receipt oldFinds).1
  rw [← Sweep.trace, split, append_assoc, cons_append] at along
  obtain ⟨names, held, isPath, dealt⟩ := along.at_step.completed path rfl
  refine ⟨names, held, isPath, fun others otherHeld below => ?_⟩
  have done := dealt others otherHeld below
  exact covering.completed_of_done split otherHeld (done.append _)

end

theorem Covering.resume (separated : tree.Separated) (covering : Covering tree bucket sweep)
    (run : SweepRun) : Covering tree bucket (sweep.resume bucket tree.root run) := by
  have split := (take_append_drop run.steps (sweep.trace bucket tree.root run.oldFinds)).symm
  constructor
  · intro names held covers
    obtain ⟨frontier, isFrontier, _⟩ := (Option.any_eq_true _ _).1 covers
    rw [isFrontier] at covers
    have unsealed := (Option.filter_eq_some_iff.1 isFrontier).1
    rcases frontier_cases run.healthy
      ((sweep.trace bucket tree.root run.oldFinds).take run.steps) ⟨sweep.receipt, false⟩ with
      same | ⟨path, now, completed⟩
    · have receipt : sweep.receipt = some frontier := same.symm.trans unsealed
      exact mem_append_left _ (covering.covered names held (by rw [receipt]; exact covers))
    · obtain ⟨done, doneHeld, rfl, before⟩ := covering.completed_by_run split completed
      obtain rfl := Option.some.inj (now.symm.trans unsealed)
      rcases covers_only_earlier separated doneHeld held covers with rfl | earlier
      · exact mem_append_right _ (completed_mem.2 completed)
      · exact before names held (.inl earlier)
  · intro names rest held completed
    rcases mem_append.1 completed with before | now
    · exact mem_append_left _ (covering.closed names rest held before)
    · obtain ⟨done, _, same, inside⟩ := covering.completed_by_run split (completed_mem.1 now)
      obtain rfl := path_of_injective same
      cases rest with
      | nil => rwa [append_nil]
      | cons name rest => exact inside _ held (.inr ⟨name, rest, rfl⟩)

theorem covering_after (separated : tree.Separated) (runs : List SweepRun) :
    Covering tree bucket (Sweep.after bucket tree.root runs) := by
  have start : Covering tree bucket Sweep.new :=
    ⟨fun _ _ covers => (by cases covers), fun _ _ _ completed => (by cases completed)⟩
  have keeps : ∀ sweep : Sweep, Covering tree bucket sweep →
      Covering tree bucket (runs.foldl (Sweep.resume bucket tree.root) sweep) := by
    induction runs with
    | nil => exact fun _ covering => covering
    | cons run runs ih => exact fun sweep covering => ih _ (covering.resume separated run)
  exact keeps _ start

end

/-- A folder skipped on resuming was completed before in the same sweep, and a run that is not
interrupted leaves no folder of the tree uncompleted. The tree stays the same over all runs; what
the old cache still knows may change from run to run. -/
theorem resumed_sweep_skips_only_completed (tree : FolderTree) (separated : tree.Separated)
    (bucket : String) (runs : List SweepRun) :
    (∀ oldFinds path,
      .skipped path ∈ (Sweep.after bucket tree.root runs).trace bucket tree.root oldFinds →
        path ∈ (Sweep.after bucket tree.root runs).completed) ∧
    (∀ run : SweepRun,
      ((Sweep.after bucket tree.root runs).trace bucket tree.root run.oldFinds).length ≤ run.steps →
      ∀ name rest, tree.Holds (name :: rest) → pathOf bucket (name :: rest) ∈
        (Sweep.after bucket tree.root (runs ++ [run])).completed) := by
  have covering : Covering tree bucket (Sweep.after bucket tree.root runs) :=
    covering_after separated runs
  constructor
  · intro oldFinds path skipped
    obtain ⟨before, after, split⟩ := append_of_mem skipped
    have along := (trace_in_order tree bucket (Sweep.after bucket tree.root runs).receipt oldFinds).1
    rw [← Sweep.trace, split] at along
    obtain ⟨covers, names, held, rfl⟩ := along.at_step.skipped path rfl
    exact covering.covered names held (Bool.and_eq_true_iff.1 covers).1
  · intro run uninterrupted name rest held
    have whole := (trace_in_order tree bucket (Sweep.after bucket tree.root runs).receipt
      run.oldFinds).2 name rest held
    have completed := covering.completed_of_done (append_nil _).symm held whole
    have last : Sweep.after bucket tree.root (runs ++ [run]) =
        (Sweep.after bucket tree.root runs).resume bucket tree.root run := by
      simp [Sweep.after]
    rw [last, Sweep.resume, take_of_length_le uninterrupted]
    exact completed

theorem sample_names : ∀ name ∈ ["bucket", "a", "x", "a-b", "b"],
    name ≠ "" ∧ '/' ∉ name.toList ∧ name ≠ "." ∧ name ≠ ".." := by decide

def sampleName (name : String) (member : name ∈ ["bucket", "a", "x", "a-b", "b"]) : FolderName :=
  ⟨name, (sample_names name member).1, (sample_names name member).2.1,
    (sample_names name member).2.2⟩

def sampleFolder : Folder :=
  .node (sampleName "a" (.tail _ (.head _))) [.node (sampleName "x" (.tail _ (.tail _ (.head _)))) []]

/-- A bucket with the folders `a`, `a/x` and a sibling of `a`. -/
def sampleRoot (sibling : FolderName) : Folder :=
  .node (sampleName "bucket" (.head _)) [sampleFolder, .node sibling []]

theorem sample_root_at {sibling : FolderName} {folder : Folder}
    (leads : (sampleRoot sibling).At names folder) :
    folder = sampleRoot sibling ∨ folder = sampleFolder ∨ folder.folders = [] := by
  cases leads with
  | here => exact .inl rfl
  | inside member leads =>
    rcases mem_cons.1 member with rfl | member
    · cases leads with
      | here => exact .inr (.inl rfl)
      | inside member leads =>
        obtain rfl := mem_singleton.1 member
        cases leads with
        | here => exact .inr (.inr rfl)
        | inside member => cases member
    · obtain rfl := mem_singleton.1 member
      cases leads with
      | here => exact .inr (.inr rfl)
      | inside member => cases member

def sampleTree (sibling : FolderName) (different : sibling.name ≠ "a") : FolderTree where
  root := sampleRoot sibling
  distinct names folder leads := by
    rcases sample_root_at leads with rfl | rfl | none
    · refine List.nodup_cons.2 ⟨?_, List.nodup_singleton _⟩
      intro member
      exact different (congrArg FolderName.name (List.mem_singleton.1 member)).symm
    · exact List.nodup_singleton _
    · simp [none]

theorem sample_holds (sibling : FolderName) (different : sibling.name ≠ "a") :
    (sampleTree sibling different).Holds [sibling] := by
  have member : Folder.node sibling [] ∈ (sampleRoot sibling).folders :=
    mem_cons_of_mem _ mem_cons_self
  exact ⟨_, .inside member (.here _)⟩

/-- A sibling after `a/x` in both orders, and one whose path comes before it. -/
def sampleAfter : FolderName := sampleName "b" (.tail _ (.tail _ (.tail _ (.tail _ (.head _)))))

def sampleBefore : FolderName := sampleName "a-b" (.tail _ (.tail _ (.tail _ (.head _))))

/-- A run over caches that find everything, stopped after some steps. -/
def sampleRun (steps : Nat) : SweepRun := ⟨fun _ => true, fun _ => true, fun _ => true, steps⟩

theorem sample_separated :
    (sampleTree sampleAfter (by simp [sampleAfter, sampleName])).Separated := by
  intro names folder leads short shortMember long longMember letter tail continues less
  rcases sample_root_at leads with rfl | rfl | none
  · simp [sampleRoot, Folder.folders] at shortMember longMember
    rcases shortMember with rfl | rfl <;> rcases longMember with rfl | rfl <;>
      simp_all [sampleFolder, sampleAfter, Folder.name, sampleName]
  · simp [sampleFolder, Folder.folders] at shortMember longMember
    subst shortMember
    rfl
  · rw [none] at shortMember
    cases shortMember

theorem resumed_sample_skips_completed :
    .skipped "bucket/a/x" ∈ (Sweep.after "bucket" (sampleRoot sampleAfter)
        [sampleRun 4]).trace "bucket" (sampleRoot sampleAfter) (fun _ => true) ∧
      "bucket/a/x" ∈ (Sweep.after "bucket" (sampleRoot sampleAfter)
        [sampleRun 4]).completed := by
  have skipped : .skipped "bucket/a/x" ∈ (Sweep.after "bucket"
      (sampleRoot sampleAfter) [sampleRun 4]).trace "bucket"
        (sampleRoot sampleAfter) (fun _ => true) := by decide
  exact ⟨skipped, (resumed_sweep_skips_only_completed _ sample_separated "bucket" [sampleRun 4]).1
    _ _ skipped⟩

/-- The sweep stops when `a/x` is completed. On resuming, `a-b` comes before `a/x` as a
path and is skipped, although neither it nor the bucket was completed, and the run
that is not interrupted ends without it. -/
theorem sibling_skipped_unscanned :
    (sampleTree sampleBefore (by simp [sampleBefore, sampleName])).Holds
        [sampleBefore] ∧
      .skipped "bucket/a-b" ∈ (Sweep.after "bucket" (sampleRoot sampleBefore)
        [sampleRun 4]).trace "bucket" (sampleRoot sampleBefore) (fun _ => true) ∧
      (Sweep.after "bucket" (sampleRoot sampleBefore) [sampleRun 4]).completed =
        ["bucket/a/x"] ∧
      (Sweep.after "bucket" (sampleRoot sampleBefore)
        [sampleRun 4, sampleRun 100]).completed = ["bucket/a/x", "bucket/a"] := by
  refine ⟨sample_holds _ _, ?_, ?_, ?_⟩
  all_goals decide

end Rustfs.Scanner
