import Rustfs.Filemeta.Replication
import Rustfs.Library.Lists
import Rustfs.Library.MachineInt
import Rustfs.Library.Paging
import Rustfs.Utils.StrSearch

/-!
# Pages of a listing

`list_objects_generic` and `inner_list_object_versions` of `ecstore/src/store/list_objects.rs` with
the folding of `ecstore/src/object_api/types.rs`. The scan behind them is `listPath`: the first
entries, in the order of their names, that lie behind the marker and under the prefix. The cursor
tag of a marker, the key-only provider and the purge of empty directories after a page are left out.
-/

namespace Rustfs.Ecstore

open List Filemeta Library Library.Paging Utils

structure ListRequest where
  keyPrefix : String
  delimiter : Option String
  maxKeys : Int
  /-- Whether the bucket's configuration versions the key. -/
  versioned : String → Bool

/-- What a listing reads of a `FileInfo`. -/
structure VersionInfo where
  versionId : Option Uuid
  modTime : OffsetDateTime
  versionPurgeStatus : VersionPurgeStatusType
  deriving DecidableEq

def VersionInfo.isPurging (info : VersionInfo) : Bool := !info.versionPurgeStatus.isEmpty

/-- An `ObjectInfo` with a modification time; one without that is a directory stands for a common
prefix and is an `Item.common`. -/
structure ListedObject where
  name : String
  versionId : Option Uuid
  modTime : OffsetDateTime
  deriving DecidableEq

inductive VersionMarker
  | null
  | version (id : Uuid)
  deriving DecidableEq

def globalDirSuffix : String := "__XLDIR__"

def decodeDirObject (object : String) : String :=
  if endsWith object globalDirSuffix then trimEndMatches object globalDirSuffix ++ "/" else object

def ListedObject.fromFileInfo (request : ListRequest) (name : String) (info : VersionInfo) :
    ListedObject where
  name := decodeDirObject name
  versionId := if request.versioned name then some (info.versionId.getD 0) else info.versionId
  modTime := info.modTime

def maxObjectList : Int := 1000

def normalizeMaxKeys (maxKeys : Int) : Int := min maxKeys maxObjectList

def maxKeysPlusOne (maxKeys : Int) (addOne : Bool) : Int :=
  (if 0 ≤ maxKeys ∧ maxKeys ≤ maxObjectList then maxKeys else maxObjectList) + if addOne then 1 else 0

/-- The marker's own entry counts when the listing goes on inside of it. -/
def isBehind (marker : Option String) (includeMarker : Bool) (name : String) : Bool :=
  marker.all fun marker => if includeMarker then !(name < marker) else !(name ≤ marker)

section Scan

variable {E : Type} (name : E → String)

def candidates (entries : List E) (keyPrefix : String) (marker : Option String)
    (includeMarker : Bool) : List E :=
  entries.filter fun entry => isBehind marker includeMarker (name entry) &&
    startsWith (name entry) keyPrefix

/-- `list_path`: some entries, and whether the limit was reached. -/
def listPath (entries : List E) (keyPrefix : String) (marker : Option String) (includeMarker : Bool)
    (limit : Int) : List E × Bool :=
  if limit ≤ 0 then ([], false)
  else
    let taken := (candidates name entries keyPrefix marker includeMarker).take limit.toNat
    (taken, taken.length = limit.toNat)

/-- The entries from the first one behind the marker; all of them if there is none. -/
def forwardPast (entries : List E) (marker : Option String) : List E :=
  match marker with
  | none => entries
  | some marker =>
    match entries.findIdx? fun entry => marker < name entry with
    | none => entries
    | some idx => entries.drop idx

end Scan

/-- The common prefix of a name, if the delimiter is in it: the inner value is the slice that
`str::get` yields. -/
def foldedUnder (request : ListRequest) (name : String) : Option (Option String) :=
  request.delimiter.bind fun delimiter =>
    let remaining := if startsWith name request.keyPrefix then dropPrefix name request.keyPrefix else name
    (beforeFirst delimiter.toList remaining.toList).map fun before =>
      (takeBytes (charsLen request.keyPrefix.toList + charsLen before + charsLen delimiter.toList)
        name.toList).map String.ofList

/-- The entry under its common prefix, or the given items. -/
def foldOr {A : Type} (request : ListRequest) (name : String) (items : List A) : Shown String A :=
  match foldedUnder request name with
  | none => .listed items
  | some none => .listed []
  | some (some common) => .folded common

inductive EntryKind
  /-- The latest version, if the metadata decodes. -/
  | object (latest : Option VersionInfo)
  | directory
  deriving DecidableEq

structure ListEntry where
  name : String
  kind : EntryKind
  deriving DecidableEq

/-- One round of `from_meta_cache_entries_sorted_infos`. -/
def shownInfo (request : ListRequest) (entry : ListEntry) : Shown String ListedObject :=
  match entry.kind with
  | .object latest =>
    if latest.any VersionInfo.isPurging then .listed []
    else foldOr request entry.name (latest.map (.fromFileInfo request entry.name)).toList
  | .directory => foldOr request entry.name []

def fromMetaCacheEntriesSortedInfos (request : ListRequest) (entries : List ListEntry) :
    List (Item String ListedObject) :=
  collect "" (entries.map (shownInfo request))

structure ListPage where
  objects : List ListedObject
  prefixes : List String
  isTruncated : Bool
  nextMarker : Option String
  nextVersionIdmarker : Option VersionMarker
  deriving DecidableEq

def itemName : Item String ListedObject → String
  | .common name => name
  | .object object => object.name

def ListedObject.versionMarker (object : ListedObject) : VersionMarker :=
  match object.versionId.filter fun id => !id.isNil with
  | some id => .version id
  | none => .null

/-- A common prefix has no version to go on from. -/
def itemVersionMarker : Item String ListedObject → Option VersionMarker
  | .common _ => none
  | .object object => some object.versionMarker

/-- The names in the order of their first occurrence. -/
def firstOnly : List String → List String → List String
  | _, [] => []
  | seen, name :: rest =>
    if name ∈ seen then firstOnly seen rest else name :: firstOnly (name :: seen) rest

def lastShown (objects : List ListedObject) (prefixes : List String) :
    Option (Item String ListedObject) :=
  (objects.getLast?.map .object).or (prefixes.getLast?.map .common)

def listObjectsPaginate (getObjects : List (Item String ListedObject)) (delimiter : Option String)
    (maxKeys : Int) (diskHasMore includeVersionId : Bool) (lastScannedKey : Option String) : ListPage :=
  let kept := if maxKeys ≤ 0 then [] else getObjects.take (asUsize maxKeys)
  let isTruncated := 0 < maxKeys && asUsize maxKeys < getObjects.length
  let objects := objectsOf kept
  let prefixes := firstOnly [] (commonsOf kept)
  let markedBy := fun (last : Option (Item String ListedObject)) =>
    ({ objects, prefixes, isTruncated := true
       nextMarker := last.map itemName
       nextVersionIdmarker := if includeVersionId then last.bind itemVersionMarker else none } : ListPage)
  let whole : ListPage := ⟨objects, prefixes, false, none, none⟩
  if isTruncated then markedBy kept.getLast?
  else if diskHasMore && !includeVersionId then
    let visibleCount := objects.length + prefixes.length
    if if delimiter.isNone then 0 < visibleCount else asUsize maxKeys ≤ visibleCount then
      markedBy (lastShown objects prefixes)
    else
      match delimiter, lastScannedKey with
      | some _, some lastScanned => { whole with isTruncated := true, nextMarker := some lastScanned }
      | _, _ => whole
  else whole

/-- The page computation of `list_objects_generic`. -/
def listObjectsGeneric (request : ListRequest) (entries : List ListEntry) (marker : Option String) :
    ListPage :=
  let maxKeys := normalizeMaxKeys request.maxKeys
  let limit := if maxKeys ≤ 0 then 0 else maxKeysPlusOne maxKeys true
  let (found, diskHasMore) := listPath ListEntry.name entries request.keyPrefix marker false limit
  let scanned := forwardPast ListEntry.name found marker
  listObjectsPaginate (fromMetaCacheEntriesSortedInfos request scanned) request.delimiter maxKeys
    diskHasMore false (scanned.getLast?.map ListEntry.name)

def ListPage.follow (page : ListPage) : Option (Option String) :=
  if page.isTruncated then page.nextMarker.map some else none

/-- The name goes on behind the prefix, and the common prefix ends with the first delimiter. -/
structure Under (request : ListRequest) (name common : String) (delimiter : String)
    (before after : List Char) : Prop where
  delimited : request.delimiter = some delimiter
  isName : name.toList = request.keyPrefix.toList ++ (before ++ delimiter.toList ++ after)
  first : beforeFirst delimiter.toList (before ++ delimiter.toList ++ after) = some before
  isCommon : common.toList = request.keyPrefix.toList ++ (before ++ delimiter.toList)

def IsUnder (request : ListRequest) (name common : String) : Prop :=
  ∃ delimiter before after, Under request name common delimiter before after

section Names

variable {request : ListRequest} {name other common : String}

theorem starts_with_iff (text start : String) :
    startsWith text start = true ↔ ∃ rest, text.toList = start.toList ++ rest := by
  unfold startsWith
  rw [List.isPrefixOf_iff_prefix]
  constructor
  all_goals
    rintro ⟨rest, isText⟩
    exact ⟨rest, isText.symm⟩

theorem drop_prefix_of {text start : String} {rest : List Char}
    (isText : text.toList = start.toList ++ rest) : (dropPrefix text start).toList = rest := by
  unfold dropPrefix
  rw [isText, drop_left, String.toList_ofList]

theorem folded_under_eq (starts : startsWith name request.keyPrefix = true) {delimiter : String}
    (delimited : request.delimiter = some delimiter) :
    foldedUnder request name =
      (beforeFirst delimiter.toList (dropPrefix name request.keyPrefix).toList).map fun before =>
        some (.ofList (request.keyPrefix.toList ++ (before ++ delimiter.toList))) := by
  unfold foldedUnder
  rw [delimited, Option.bind_some, if_pos starts]
  obtain ⟨rest, isName⟩ := (starts_with_iff _ _).1 starts
  dsimp only
  rw [drop_prefix_of isName]
  cases found : beforeFirst delimiter.toList rest with
  | none => rfl
  | some before =>
    obtain ⟨after, isRest⟩ := before_first_split found
    have split : name.toList =
        (request.keyPrefix.toList ++ (before ++ delimiter.toList)) ++ after := by
      rw [isName, isRest]
      simp
    have size : charsLen request.keyPrefix.toList + charsLen before + charsLen delimiter.toList =
        charsLen (request.keyPrefix.toList ++ (before ++ delimiter.toList)) := by
      rw [chars_len_append, chars_len_append, Nat.add_assoc]
    rw [Option.map_some, Option.map_some, size, split, take_bytes_append]
    rfl

theorem folded_under_some_iff (starts : startsWith name request.keyPrefix = true) :
    foldedUnder request name = some (some common) ↔ IsUnder request name common := by
  obtain ⟨rest, isName⟩ := (starts_with_iff _ _).1 starts
  cases delimited : request.delimiter with
  | none =>
    refine iff_of_false ?_ ?_
    · unfold foldedUnder
      rw [delimited]
      exact Option.some_ne_none _ ∘ Eq.symm
    · rintro ⟨delimiter, before, after, under⟩
      rw [under.delimited] at delimited
      cases delimited
  | some delimiter =>
    rw [folded_under_eq starts delimited, drop_prefix_of isName]
    constructor
    · intro found
      obtain ⟨before, isBefore, isCommon⟩ := Option.map_eq_some_iff.1 found
      obtain ⟨after, isRest⟩ := before_first_split isBefore
      refine ⟨delimiter, before, after, delimited, ?_, ?_, ?_⟩
      · rw [isName, isRest]
      · rw [← isRest]
        exact isBefore
      · rw [← Option.some.inj isCommon, String.toList_ofList]
    · rintro ⟨_, before, after, under⟩
      rw [under.delimited] at delimited
      cases delimited
      have isRest : rest = before ++ delimiter.toList ++ after := by
        rw [under.isName] at isName
        exact (append_cancel_left isName).symm
      rw [isRest, under.first, Option.map_some, ← under.isCommon, String.ofList_toList]

theorem under_le (under : IsUnder request name common) : common ≤ name := by
  obtain ⟨delimiter, before, after, under⟩ := under
  have split : name.toList = common.toList ++ after := by
    rw [under.isName, under.isCommon]
    simp
  rw [String.le_iff_toList_le, split]
  exact le_append _ _

theorem under_between (under : IsUnder request name common) (lower : common ≤ other)
    (upper : other ≤ name) : IsUnder request other common := by
  obtain ⟨delimiter, before, after, under⟩ := under
  rw [String.le_iff_toList_le] at lower upper
  rw [under.isName, ← append_assoc, ← under.isCommon] at upper
  obtain ⟨behind, isOther⟩ := prefix_of_between lower upper
  refine ⟨delimiter, before, behind, under.delimited, ?_, before_first_stable under.first behind,
    under.isCommon⟩
  rw [← isOther, under.isCommon, append_assoc]

theorem under_not_empty (filled : request.delimiter ≠ some "") (under : IsUnder request name common) :
    common ≠ "" := by
  rintro rfl
  obtain ⟨delimiter, before, after, under⟩ := under
  have empty := under.isCommon
  simp only [String.toList_empty, nil_eq, append_eq_nil_iff] at empty
  have delimiterEmpty : delimiter = "" := String.toList_inj.1 empty.2.2
  exact filled (delimiterEmpty ▸ under.delimited)

theorem fold_or_folded_iff {A : Type} (starts : startsWith name request.keyPrefix = true)
    (items : List A) :
    foldOr request name items = .folded common ↔ IsUnder request name common := by
  rw [← folded_under_some_iff starts]
  unfold foldOr
  cases foldedUnder request name with
  | none => simp
  | some slice =>
    cases slice with
    | none => simp
    | some found => simp

def isDelimited (request : ListRequest) (name : String) : Bool :=
  request.delimiter.any fun delimiter =>
    (beforeFirst delimiter.toList (dropPrefix name request.keyPrefix).toList).isSome

theorem folded_under_none_iff (starts : startsWith name request.keyPrefix = true) :
    foldedUnder request name = none ↔ isDelimited request name = false := by
  unfold isDelimited
  cases delimited : request.delimiter with
  | none =>
    unfold foldedUnder
    rw [delimited]
    exact iff_of_true rfl rfl
  | some delimiter =>
    rw [folded_under_eq starts delimited]
    simp

theorem fold_or_items {A : Type} (starts : startsWith name request.keyPrefix = true)
    (items : List A) :
    (foldOr request name items).items = if isDelimited request name then [] else items := by
  unfold foldOr
  cases folded : foldedUnder request name with
  | none =>
    rw [(folded_under_none_iff starts).1 folded]
    rfl
  | some slice =>
    have delimited : isDelimited request name = true := by
      rw [← Bool.not_eq_false, ← folded_under_none_iff starts, folded]
      exact Option.some_ne_none _
    rw [delimited, if_pos rfl]
    cases slice with
    | none => rfl
    | some common => rfl

end Names

section Entries

variable {request : ListRequest} {entry : ListEntry} {common : String}

theorem shown_info_folded (starts : startsWith entry.name request.keyPrefix = true)
    (folded : shownInfo request entry = .folded common) : IsUnder request entry.name common := by
  unfold shownInfo at folded
  split at folded
  · split at folded
    · cases folded
    · exact (fold_or_folded_iff starts _).1 folded
  · exact (fold_or_folded_iff starts _).1 folded

theorem shown_info_under (starts : startsWith entry.name request.keyPrefix = true)
    (under : IsUnder request entry.name common) :
    shownInfo request entry = .folded common ∨ shownInfo request entry = .listed [] := by
  unfold shownInfo
  split
  · split
    · exact .inr rfl
    · exact .inl ((fold_or_folded_iff starts _).2 under)
  · exact .inl ((fold_or_folded_iff starts _).2 under)

theorem shown_info_folds {entries : List ListEntry}
    (sorted : entries.Pairwise fun one two => one.name < two.name)
    (starts : ∀ entry ∈ entries, startsWith entry.name request.keyPrefix = true) :
    Folds ListEntry.name (shownInfo request) entries where
  sorted := sorted
  below := by
    intro entry member common folded
    exact under_le (shown_info_folded (starts entry member) folded)
  between := by
    intro entry member common folded other isOther lower upper
    apply shown_info_under (starts other isOther)
    exact under_between (shown_info_folded (starts entry member) folded) lower upper

end Entries

namespace ListRequest

def pageKeys (request : ListRequest) : Nat := asUsize (normalizeMaxKeys request.maxKeys)

/-- At least one key, and a delimiter that is not empty. Nothing else is asked of a request. -/
structure Proper (request : ListRequest) : Prop where
  keys : 1 ≤ request.maxKeys
  filled : request.delimiter ≠ some ""

section Keys

variable {request : ListRequest}

theorem Proper.page_keys (proper : request.Proper) :
    (request.pageKeys : Int) = normalizeMaxKeys request.maxKeys ∧ 1 ≤ request.pageKeys ∧
      (request.pageKeys : Int) ≤ request.maxKeys ∧ request.pageKeys ≤ 1000 := by
  have keys := proper.keys
  unfold pageKeys asUsize normalizeMaxKeys maxObjectList
  rcases min_cases request.maxKeys 1000 with ⟨isMin, small⟩ | ⟨isMin, large⟩ <;> omega

theorem Proper.scan_limit (proper : request.Proper) :
    maxKeysPlusOne (normalizeMaxKeys request.maxKeys) true = request.pageKeys + 1 := by
  obtain ⟨isKeys, positive, _, bounded⟩ := proper.page_keys
  unfold maxKeysPlusOne maxObjectList
  rw [← isKeys, if_pos ⟨by omega, by omega⟩]
  rfl

end Keys

end ListRequest

section Behind

variable {E : Type} {name : E → String} {entries front back : List E} {keyPrefix : String}
  {marker : Option String} {includeMarker : Bool} {next : String}

theorem mem_candidates {entry : E} :
    entry ∈ candidates name entries keyPrefix marker includeMarker ↔
      entry ∈ entries ∧ isBehind marker includeMarker (name entry) = true ∧
        startsWith (name entry) keyPrefix = true := by
  unfold candidates
  rw [mem_filter, Bool.and_eq_true]

theorem is_behind_some {text : String} : isBehind (some next) false text = true ↔ next < text := by
  unfold isBehind
  simp

theorem is_behind_included {key text : String} : isBehind (some key) true text = true ↔ key ≤ text := by
  unfold isBehind
  rw [Option.all_some, if_pos rfl, Bool.not_eq_true', decide_eq_false_iff_not, not_lt]

theorem forward_past_behind {found : List E}
    (behind : ∀ entry ∈ found, isBehind marker false (name entry) = true) :
    forwardPast name found marker = found := by
  unfold forwardPast
  cases marker with
  | none => rfl
  | some next =>
    cases found with
    | nil => rfl
    | cons entry rest =>
      have here : next < name entry := is_behind_some.1 (behind entry mem_cons_self)
      dsimp only
      rw [findIdx?_cons, decide_eq_true here]
      rfl

theorem candidates_narrow (advances : ∀ old, marker = some old → old ≤ next) :
    candidates name entries keyPrefix (some next) false =
      (candidates name entries keyPrefix marker includeMarker).filter fun entry => next < name entry := by
  unfold candidates
  rw [filter_filter]
  apply filter_congr
  intro entry _
  rw [Bool.eq_iff_iff]
  simp only [Bool.and_eq_true, is_behind_some, decide_eq_true_eq]
  constructor
  · rintro ⟨later, starts⟩
    refine ⟨later, ?_, starts⟩
    cases marker with
    | none => rfl
    | some old =>
      have behind := (advances old rfl).trans_lt later
      cases includeMarker with
      | false => exact is_behind_some.2 behind
      | true => exact is_behind_included.2 behind.le
  · rintro ⟨later, _, starts⟩
    exact ⟨later, starts⟩

theorem candidates_cut
    (split : candidates name entries keyPrefix marker includeMarker = front ++ back)
    (isFront : ∀ entry ∈ front, name entry ≤ next)
    (isBack : ∀ entry ∈ back, next < name entry) (advances : ∀ old, marker = some old → old ≤ next) :
    candidates name entries keyPrefix (some next) false = back := by
  rw [candidates_narrow advances, split, filter_append]
  have noFront : front.filter (fun entry => next < name entry) = [] := by
    apply filter_eq_nil_iff.2
    intro entry member later
    exact not_lt.2 (isFront entry member) (of_decide_eq_true later)
  have allBack : back.filter (fun entry => next < name entry) = back := by
    apply filter_eq_self.2
    intro entry member
    exact decide_eq_true (isBack entry member)
  rw [noFront, allBack, nil_append]

end Behind

section Page

variable {request : ListRequest} {entries : List ListEntry} {marker : Option String}
  {items : List (Item String ListedObject)}

def behind (request : ListRequest) (entries : List ListEntry) (marker : Option String) :
    List ListEntry :=
  candidates ListEntry.name entries request.keyPrefix marker false

def window (request : ListRequest) (entries : List ListEntry) (marker : Option String) :
    List ListEntry :=
  (behind request entries marker).take (request.pageKeys + 1)

/-- The entries that the page does not look at. -/
def beyond (request : ListRequest) (entries : List ListEntry) (marker : Option String) :
    List ListEntry :=
  (behind request entries marker).drop (request.pageKeys + 1)

def itemsOf (request : ListRequest) (entries : List ListEntry) : List (Item String ListedObject) :=
  collect "" (entries.map (shownInfo request))

theorem window_append_beyond (request : ListRequest) (entries : List ListEntry)
    (marker : Option String) :
    window request entries marker ++ beyond request entries marker = behind request entries marker :=
  take_append_drop _ _

theorem list_objects_generic_eq (proper : request.Proper) :
    listObjectsGeneric request entries marker =
      listObjectsPaginate (itemsOf request (window request entries marker)) request.delimiter
        request.pageKeys ((window request entries marker).length = request.pageKeys + 1) false
        ((window request entries marker).getLast?.map ListEntry.name) := by
  obtain ⟨isKeys, positive, _, _⟩ := proper.page_keys
  have scanned : listPath ListEntry.name entries request.keyPrefix marker false
      (request.pageKeys + 1) = (window request entries marker,
        decide ((window request entries marker).length = request.pageKeys + 1)) := by
    unfold listPath
    rfl
  have kept : forwardPast ListEntry.name (window request entries marker) marker =
      window request entries marker := by
    apply forward_past_behind
    intro entry member
    exact (mem_candidates.1 (mem_of_mem_take member)).2.1
  unfold listObjectsGeneric
  dsimp only
  rw [proper.scan_limit, ← isKeys, if_neg (by omega), scanned]
  rw [kept]
  rfl

theorem as_usize_page_keys (proper : request.Proper) : asUsize request.pageKeys = request.pageKeys := by
  have bounded := proper.page_keys.2.2.2
  unfold asUsize
  omega

theorem first_only_distinct (names : List String) :
    ∀ seen : List String, names.Pairwise (· < ·) → (∀ name ∈ names, name ∉ seen) →
      firstOnly seen names = names := by
  induction names with
  | nil => exact fun _ _ _ => rfl
  | cons name rest ih =>
    intro seen increasing fresh
    obtain ⟨here, restIncreasing⟩ := pairwise_cons.1 increasing
    obtain ⟨hereFresh, restFresh⟩ := forall_mem_cons.1 fresh
    rw [firstOnly, if_neg hereFresh, ih (name :: seen) restIncreasing]
    intro other member
    rw [mem_cons, not_or]
    exact ⟨(here other member).ne', restFresh other member⟩

theorem items_length (items : List (Item String ListedObject)) :
    (objectsOf items).length + (commonsOf items).length = items.length := by
  induction items with
  | nil => rfl
  | cons item rest ih =>
    cases item with
    | common name =>
      change (objectsOf rest).length + ((commonsOf rest).length + 1) = rest.length + 1
      omega
    | object item =>
      change ((objectsOf rest).length + 1) + (commonsOf rest).length = rest.length + 1
      omega

/-- The marker of the next page, by the number of items and whether the window is full. -/
def nextMarkerOf (delimiter : Option String) (keys : Nat) (items : List (Item String ListedObject))
    (full : Bool) (lastScanned : Option String) : Option String :=
  if keys < items.length then (items.take keys).getLast?.map itemName
  else if !full then none
  else if if delimiter.isNone then 0 < items.length else keys ≤ items.length then
    (lastShown (objectsOf items) (commonsOf items)).map itemName
  else if delimiter.isNone then none
  else lastScanned

theorem last_shown_some (filled : 0 < items.length) :
    (lastShown (objectsOf items) (commonsOf items)).isSome := by
  have lengths := items_length items
  unfold lastShown
  cases objects : objectsOf items with
  | nil =>
    cases commons : commonsOf items with
    | nil =>
      rw [objects, commons] at lengths
      simp only [length_nil] at lengths
      omega
    | cons name rest => simp [getLast?_cons]
  | cons object rest => simp [getLast?_cons]

theorem paginate_eq {delimiter : Option String} {keys : Nat}
    (positive : 0 < keys) (usize : asUsize keys = keys) (increasing : (commonsOf items).Pairwise (· < ·))
    (full : Bool) (lastScanned : Option String) (scanned : full = true → lastScanned.isSome) :
    listObjectsPaginate items delimiter keys full false lastScanned =
      { objects := objectsOf (items.take keys)
        prefixes := commonsOf (items.take keys)
        isTruncated := (nextMarkerOf delimiter keys items full lastScanned).isSome
        nextMarker := nextMarkerOf delimiter keys items full lastScanned
        nextVersionIdmarker := none } := by
  have keptIncreasing : (commonsOf (items.take keys)).Pairwise (· < ·) :=
    increasing.sublist ((take_sublist _ _).filterMap _)
  have distinct := first_only_distinct _ [] keptIncreasing (by simp)
  have isPositive : ¬ (keys : Int) ≤ 0 := by omega
  unfold listObjectsPaginate nextMarkerOf
  simp only [usize, if_neg isPositive, distinct]
  by_cases longer : keys < items.length
  · have last : (items.take keys).getLast?.isSome := by
      rw [getLast?_isSome, ne_eq, take_eq_nil_iff, not_or]
      exact ⟨by omega, ne_nil_of_length_pos (by omega)⟩
    have truncated : ((0 : Int) < keys && keys < items.length : Bool) = true := by
      simp only [Bool.and_eq_true, decide_eq_true_eq]
      omega
    rw [truncated, if_pos rfl, if_pos longer, Option.isSome_map, last]
    rfl
  · have whole : items.take keys = items := take_of_length_le (by omega)
    have untruncated : ((0 : Int) < keys && keys < items.length : Bool) = false := by
      simp only [Bool.and_eq_false_iff, decide_eq_false_iff_not]
      omega
    rw [untruncated, if_neg Bool.false_ne_true, if_neg longer, whole, items_length]
    cases full with
    | false => rfl
    | true =>
      obtain ⟨key, isKey⟩ := Option.isSome_iff_exists.1 (scanned rfl)
      rw [isKey]
      cases delimiter with
      | none =>
        by_cases filled : 0 < items.length
        · simp [filled, last_shown_some filled]
        · simp [filled]
      | some delimiter =>
        by_cases enough : keys ≤ items.length
        · simp [enough, last_shown_some (positive.trans_le enough)]
        · simp [enough]

end Page

end Rustfs.Ecstore
