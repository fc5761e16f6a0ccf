import Rustfs.Ecstore.ListPage

/-!
# Pages that add up

When the pages of a listing account for every key and every common prefix exactly once.
The pages are those of the scan; the cursor tag of a marker is taken off before, as
`ListMarker` has it.
-/

namespace Rustfs.Ecstore

open List Option Filemeta Library.Lists Library.Paging Utils

/-- Entries as a scan delivers them: in the order of their names, with directory objects decoded. -/
structure Scannable (entries : List ListEntry) : Prop where
  sorted : entries.Pairwise fun one two => one.name < two.name
  decoded : ∀ entry ∈ entries, endsWith entry.name globalDirSuffix = false

variable {list : List ListEntry} {item : Item String ListedObject} {common : String}
  {entry : ListEntry}

section Window

variable {request : ListRequest} {entries : List ListEntry} {marker : Option String}
  {object : ListedObject} {init back : List ListEntry} {items : List (Item String ListedObject)}

theorem behind_folds (scannable : Scannable entries) :
    Folds ListEntry.name (shownInfo request) (behind request entries marker) := by
  apply shown_info_folds
  · exact scannable.sorted.filter _
  · intro entry member
    exact (mem_candidates.1 member).2.2

theorem window_folds (scannable : Scannable entries) :
    Folds ListEntry.name (shownInfo request) (window request entries marker) :=
  folds_sublist (behind_folds scannable) (take_sublist _ _)

theorem shown_info_single (entry : ListEntry) : (shownInfo request entry).items.length ≤ 1 := by
  have short : ∀ items : List ListedObject, items.length ≤ 1 →
      (foldOr request entry.name items).items.length ≤ 1 := by
    intro items small
    unfold foldOr
    split
    · exact small
    · exact Nat.zero_le _
    · exact Nat.zero_le _
  unfold shownInfo
  split
  · split
    · exact Nat.zero_le _
    · apply short
      rename_i latest _ _
      cases latest with
      | none => exact Nat.zero_le _
      | some info => exact le_rfl
  · exact short [] (Nat.zero_le _)

theorem shown_infos_single (entries : List ListEntry) :
    ∀ shown ∈ entries.map (shownInfo request), shown.items.length ≤ 1 := by
  intro shown member
  obtain ⟨entry, _, rfl⟩ := mem_map.1 member
  exact shown_info_single entry

variable {entry : ListEntry}

theorem not_folded_empty (proper : request.Proper)
    (isBehind : entry ∈ behind request entries marker) : shownInfo request entry ≠ .folded "" := by
  intro folded
  have starts := (mem_candidates.1 isBehind).2.2
  exact under_not_empty proper.filled (shown_info_folded starts folded) rfl

theorem listed_name (scannable : Scannable entries)
    (isBehind : entry ∈ behind request entries marker)
    (listed : shownInfo request entry = .listed [object]) : object.name = entry.name := by
  have decoded := scannable.decoded entry (mem_candidates.1 isBehind).1
  have named : ∀ info, (ListedObject.fromFileInfo request entry.name info).name = entry.name := by
    intro info
    unfold ListedObject.fromFileInfo decodeDirObject
    rw [if_neg (by rw [decoded]; exact Bool.false_ne_true)]
  unfold shownInfo at listed
  split at listed
  · rename_i latest _
    split at listed
    · cases listed
    · unfold foldOr at listed
      split at listed
      · cases latest with
        | none => cases listed
        | some info =>
          cases listed
          exact named info
      all_goals cases listed
  · unfold foldOr at listed
    split at listed <;> cases listed

def nextOf (request : ListRequest) (entries : List ListEntry) (marker : Option String) : Option String :=
  nextMarkerOf request.delimiter request.pageKeys (itemsOf request (window request entries marker))
    ((window request entries marker).length = request.pageKeys + 1)
    ((window request entries marker).getLast?.map ListEntry.name)

theorem page_eq (proper : request.Proper) (scannable : Scannable entries) :
    listObjectsGeneric request entries marker =
      { objects := objectsOf ((itemsOf request (window request entries marker)).take request.pageKeys)
        prefixes := commonsOf ((itemsOf request (window request entries marker)).take request.pageKeys)
        isTruncated := (nextOf request entries marker).isSome
        nextMarker := nextOf request entries marker
        nextVersionIdmarker := none } := by
  rw [list_objects_generic_eq proper]
  apply paginate_eq proper.page_keys.2.1 (as_usize_page_keys proper)
  · exact commons_increasing (folds_up (window_folds scannable)) ""
  · intro full
    have filled : 0 < (window request entries marker).length := by
      rw [of_decide_eq_true full]
      omega
    rw [isSome_map, getLast?_isSome]
    exact ne_nil_of_length_pos filled

theorem items_cut_at (proper : request.Proper) (scannable : Scannable entries)
    (split : behind request entries marker = init ++ entry :: back) (clean : ∀ other ∈ back,
      shownInfo request other ≠ .folded (lastFold "" ((init ++ [entry]).map (shownInfo request)))) :
    itemsOf request (behind request entries marker) =
      itemsOf request (init ++ [entry]) ++
        itemsOf request (behind request entries (some entry.name)) := by
  have folds : Folds ListEntry.name (shownInfo request) (behind request entries marker) :=
    behind_folds scannable
  rw [split] at folds
  obtain ⟨_, tailSorted, initBelow⟩ := pairwise_append.1 folds.sorted
  obtain ⟨backAbove, _⟩ := pairwise_cons.1 tailSorted
  rw [append_cons] at split
  have next : behind request entries (some entry.name) = back := by
    apply candidates_cut split
    · intro other member
      rcases mem_append.1 member with inInit | isEntry
      · exact (initBelow other inInit entry mem_cons_self).le
      · rw [mem_singleton.1 isEntry]
    · exact backAbove
    · intro old isMarker
      have here : entry ∈ behind request entries marker := by
        rw [split]
        simp
      have later := (mem_candidates.1 here).2.1
      rw [isMarker] at later
      exact (is_behind_some.1 later).le
  rw [next, split]
  apply collect_cut _ clean
  intro other member
  rw [← split] at member
  exact not_folded_empty proper member

theorem clean_at_object (proper : request.Proper) (scannable : Scannable entries)
    (split : behind request entries marker = init ++ entry :: back)
    (listed : shownInfo request entry = .listed [object]) :
    ∀ other ∈ back,
      shownInfo request other ≠ .folded (lastFold "" ((init ++ [entry]).map (shownInfo request))) := by
  intro other isOther
  have folds : Folds ListEntry.name (shownInfo request) (behind request entries marker) :=
    behind_folds scannable
  have isBehind : other ∈ behind request entries marker := by
    rw [split]
    simp [isOther]
  rw [split] at folds
  obtain ⟨_, tailSorted, initBelow⟩ := pairwise_append.1 folds.sorted
  obtain ⟨backAbove, _⟩ := pairwise_cons.1 tailSorted
  rw [map_append, last_fold_append, map_singleton, listed]
  rcases last_fold_cases (init.map (shownInfo request)) "" with empty | inInit
  · rw [empty]
    exact not_folded_empty proper isBehind
  · obtain ⟨earlier, isEarlier, folded⟩ := mem_map.1 inInit
    have apart : ∀ name, shownInfo request entry ≠ .folded name := by
      intro name same
      rw [listed] at same
      cases same
    have shows : shownInfo request entry ≠ .listed [] := by
      rw [listed]
      exact fun same => by cases same
    exact not_folded_behind folds (mem_append_right _ mem_cons_self) (apart _) shows
      (mem_append_left _ isEarlier) folded (initBelow earlier isEarlier entry mem_cons_self).le
      (mem_append_right _ (mem_cons_of_mem _ isOther)) (backAbove other isOther).le

theorem last_item_split (isLast : (itemsOf request list).getLast? = some item) :
    ∃ init entry tail, list = init ++ entry :: tail ∧
      itemsOf request list = itemsOf request (init ++ [entry]) ∧
      ((∃ object, item = .object object ∧ shownInfo request entry = .listed [object]) ∨
        ∃ common, item = .common common ∧ shownInfo request entry = .folded common) := by
  obtain ⟨front, shown, back, mapped, nothing, shows⟩ :=
    collect_last_split _ (shown_infos_single list) isLast
  obtain ⟨init, rest, rfl, rfl, restMapped⟩ := map_eq_append_iff.1 mapped
  obtain ⟨entry, tail, rfl, rfl, rfl⟩ := map_eq_cons_iff.1 restMapped
  refine ⟨init, entry, tail, rfl, ?_, shows⟩
  have split : init ++ entry :: tail = (init ++ [entry]) ++ tail := by simp
  unfold itemsOf
  rw [split, map_append, collect_append]
  have silent : collect (lastFold "" ((init ++ [entry]).map (shownInfo request)))
      (tail.map (shownInfo request)) = [] := by
    rw [map_append]
    exact nothing
  rw [silent, append_nil]

theorem objects_last
    (isLast : items.getLast? = some (.object object)) : (objectsOf items).getLast? = some object := by
  obtain ⟨init, rfl⟩ := getLast?_eq_some_iff.1 isLast
  rw [objects_of_append]
  change (objectsOf init ++ [object]).getLast? = some object
  rw [getLast?_concat]

theorem commons_last
    (isLast : items.getLast? = some (.common common)) : (commonsOf items).getLast? = some common := by
  obtain ⟨init, rfl⟩ := getLast?_eq_some_iff.1 isLast
  rw [commons_of_append]
  change (commonsOf init ++ [common]).getLast? = some common
  rw [getLast?_concat]

theorem clean_at_shown (scannable : Scannable entries) {after : ListEntry}
    (split : behind request entries marker = init ++ entry :: after :: back)
    (folded : shownInfo request entry = .folded common)
    (shows : 1 ≤ (collect common [shownInfo request after]).length) :
    ∀ other ∈ after :: back, shownInfo request other ≠ .folded common := by
  have folds : Folds ListEntry.name (shownInfo request) (behind request entries marker) :=
    behind_folds scannable
  rw [split] at folds
  obtain ⟨_, tailSorted, _⟩ := pairwise_append.1 folds.sorted
  obtain ⟨entryBelow, backSorted⟩ := pairwise_cons.1 tailSorted
  obtain ⟨afterBelow, _⟩ := pairwise_cons.1 backSorted
  have apart : shownInfo request after ≠ .folded common := by
    intro same
    rw [same, collect, if_pos rfl] at shows
    exact Nat.not_succ_le_zero 0 shows
  have filled : shownInfo request after ≠ .listed [] := by
    intro same
    rw [same] at shows
    exact Nat.not_succ_le_zero 0 shows
  intro other member
  have later : after.name ≤ other.name := by
    rcases mem_cons.1 member with rfl | inBack
    · exact le_rfl
    · exact (afterBelow other inBack).le
  have isEntry : entry ∈ init ++ entry :: after :: back := by simp
  have isAfter : after ∈ init ++ entry :: after :: back := by simp
  exact not_folded_behind folds isAfter apart filled isEntry folded
    (entryBelow after mem_cons_self).le
    (mem_append_right _ (mem_cons_of_mem _ member)) later

end Window

variable {object : ListedObject}

section Clean

variable {request : ListRequest} {entries : List ListEntry} {marker : Option String}

/-- Where a page ends does not tear a common prefix apart, and a window that shows nothing is not
the end of the listing. -/
structure CleanPage (request : ListRequest) (entries : List ListEntry) (marker : Option String) :
    Prop where
  /-- The window shows one item too many: the last entry shown is an object or is named by its
  common prefix. -/
  cut : request.pageKeys < (itemsOf request (window request entries marker)).length →
    ∀ entry common, (window request entries marker)[request.pageKeys - 1]? = some entry →
      shownInfo request entry = .folded common → entry.name = common
  /-- A full window shows exactly a page: the last item is an object, or there are only common
  prefixes and nothing else is folded under the last one. -/
  filled : (window request entries marker).length = request.pageKeys + 1 →
    request.delimiter.isSome →
    (itemsOf request (window request entries marker)).length = request.pageKeys →
    (∃ object, (itemsOf request (window request entries marker)).getLast? = some (.object object)) ∨
      objectsOf (itemsOf request (window request entries marker)) = [] ∧
        ∀ common, (itemsOf request (window request entries marker)).getLast? = some (.common common) →
          ∀ entry ∈ behind request entries marker, common < entry.name →
            shownInfo request entry ≠ .folded common
  /-- A full window shows less than a page: nothing beyond belongs to a common prefix in it. -/
  folded : (window request entries marker).length = request.pageKeys + 1 →
    request.delimiter.isSome →
    (itemsOf request (window request entries marker)).length < request.pageKeys →
    ∀ entry ∈ beyond request entries marker, ∀ common, shownInfo request entry = .folded common →
      ∀ earlier ∈ window request entries marker, shownInfo request earlier ≠ .folded common
  /-- A full window shows nothing and there is no delimiter: nothing beyond is shown. -/
  hidden : (window request entries marker).length = request.pageKeys + 1 →
    request.delimiter = none → itemsOf request (window request entries marker) = [] →
    itemsOf request (beyond request entries marker) = []

/-- The page accounts for what lies between its marker and the next. Without a next marker it
accounts for all that is left. -/
def Accounts (request : ListRequest) (entries : List ListEntry) (marker : Option String) : Prop :=
  itemsOf request (behind request entries marker) =
    (itemsOf request (window request entries marker)).take request.pageKeys ++
      ((nextOf request entries marker).map fun next =>
        itemsOf request (behind request entries (some next))).getD []

variable {entry : ListEntry}

theorem behind_of_window {init tail : List ListEntry}
    (split : window request entries marker = init ++ entry :: tail) :
    behind request entries marker = init ++ entry :: (tail ++ beyond request entries marker) := by
  rw [← window_append_beyond, split, append_assoc, cons_append]

theorem accounts_at (proper : request.Proper) (scannable : Scannable entries)
    {init tail : List ListEntry} (split : window request entries marker = init ++ entry :: tail)
    (shows : (itemsOf request (window request entries marker)).take request.pageKeys =
      itemsOf request (init ++ [entry])) (next : nextOf request entries marker = some entry.name)
    (clean : ∀ other ∈ tail ++ beyond request entries marker,
      shownInfo request other ≠ .folded (lastFold "" ((init ++ [entry]).map (shownInfo request)))) :
    Accounts request entries marker := by
  unfold Accounts
  rw [next, map_some, getD_some, shows]
  exact items_cut_at proper scannable (behind_of_window split) clean

theorem window_length_le (request : ListRequest) (entries : List ListEntry) (marker : Option String) :
    (window request entries marker).length ≤ request.pageKeys + 1 :=
  length_take_le _ _

theorem items_length_le (request : ListRequest) (list : List ListEntry) :
    (itemsOf request list).length ≤ list.length := by
  have short : (itemsOf request list).length ≤ (list.map (shownInfo request)).length :=
    collect_length_le _ (shown_infos_single list) ""
  rwa [length_map] at short

theorem dense_window (longer : request.pageKeys < (itemsOf request (window request entries marker)).length) :
    (window request entries marker).length = request.pageKeys + 1 ∧
      (itemsOf request (window request entries marker)).length = request.pageKeys + 1 := by
  have atMost := window_length_le request entries marker
  have shows := items_length_le request (window request entries marker)
  omega

theorem split_at_index {index : Nat} (inside : index < list.length) :
    ∃ init entry tail, list = init ++ entry :: tail ∧ init.length = index ∧
      list[index]? = some entry := by
  refine ⟨list.take index, list[index], list.drop (index + 1), ?_, ?_, ?_⟩
  · rw [← drop_eq_getElem_cons inside, take_append_drop]
  · rw [length_take]
    omega
  · exact getElem?_eq_getElem inside

theorem front_shows (request : ListRequest) {front back : List ListEntry} (split : list = front ++ back)
    (dense : list.length ≤ (itemsOf request list).length) :
    itemsOf request front = (itemsOf request list).take front.length ∧
      back.length ≤ (collect (lastFold "" (front.map (shownInfo request)))
        (back.map (shownInfo request))).length := by
  subst split
  have single : ∀ shown ∈ front.map (shownInfo request) ++ back.map (shownInfo request),
      shown.items.length ≤ 1 := by
    rw [← map_append]
    exact shown_infos_single _
  unfold itemsOf at dense ⊢
  rw [map_append] at dense ⊢
  rw [← @length_map _ _ (front ++ back) (shownInfo request), map_append] at dense
  have parts := collect_front single dense
  rwa [length_map, length_map] at parts

theorem shows_cases {last : String} (shows : 1 ≤ (collect last [shownInfo request entry]).length) :
    (∃ object, shownInfo request entry = .listed [object]) ∨
      ∃ common, shownInfo request entry = .folded common ∧ common ≠ last := by
  have single : (shownInfo request entry).items.length ≤ 1 := shown_info_single entry
  cases shown : shownInfo request entry with
  | folded common =>
    rw [shown, collect] at shows
    split at shows
    · exact absurd shows (Nat.not_succ_le_zero 0)
    · rename_i different
      exact .inr ⟨common, rfl, different⟩
  | listed items =>
    rw [shown] at single shows
    rcases items with _ | ⟨object, _ | ⟨second, rest⟩⟩
    · exact absurd shows (Nat.not_succ_le_zero 0)
    · exact .inl ⟨object, rfl⟩
    · have short : (object :: second :: rest).length ≤ 1 := single
      rw [length_cons, length_cons] at short
      omega

theorem cut_accounts (proper : request.Proper) (scannable : Scannable entries)
    (clean : CleanPage request entries marker)
    (longer : request.pageKeys < (itemsOf request (window request entries marker)).length) :
    Accounts request entries marker := by
  obtain ⟨windowLength, itemsLength⟩ := dense_window longer
  have positive := proper.page_keys.2.1
  obtain ⟨init, entry, tail, split, initLength, isEntry⟩ :=
    split_at_index (show request.pageKeys - 1 < (window request entries marker).length by omega)
  obtain ⟨after, rfl⟩ : ∃ after, tail = [after] := by
    apply length_eq_one_iff.1
    have lengths := congrArg List.length split
    rw [length_append, length_cons] at lengths
    omega
  have isFront : (init ++ [entry]).length = request.pageKeys := by
    rw [length_append, initLength, length_singleton]
    omega
  have splitFront : window request entries marker = (init ++ [entry]) ++ [after] := by
    rw [split]
    simp
  obtain ⟨shows, afterShows⟩ := front_shows request splitFront (by omega)
  rw [isFront] at shows
  have frontDense : (init ++ [entry]).length ≤ (itemsOf request (init ++ [entry])).length := by
    rw [shows, length_take, isFront]
    omega
  obtain ⟨_, entryShows⟩ := front_shows request rfl frontDense
  have isNext : nextOf request entries marker =
      (itemsOf request (init ++ [entry])).getLast?.map itemName := by
    unfold nextOf nextMarkerOf
    rw [if_pos longer, shows]
  have whole := behind_of_window split
  have isBehind : entry ∈ behind request entries marker := by
    rw [whole]
    simp
  rcases shows_cases entryShows with ⟨object, listed⟩ | ⟨common, folded, fresh⟩
  · have last : (itemsOf request (init ++ [entry])).getLast? = some (.object object) := by
      rw [itemsOf, map_append, collect_append, map_singleton, listed]
      exact getLast?_concat
    rw [last, map_some, itemName, listed_name scannable isBehind listed] at isNext
    exact accounts_at proper scannable split shows.symm isNext
      (clean_at_object proper scannable whole listed)
  · have last : (itemsOf request (init ++ [entry])).getLast? = some (.common common) := by
      rw [itemsOf, map_append, collect_append, map_singleton, folded, collect, if_neg fresh]
      exact getLast?_concat
    have named := clean.cut longer entry common isEntry folded
    rw [last, map_some, itemName, ← named] at isNext
    apply accounts_at proper scannable split shows.symm isNext
    have isLast : lastFold "" ((init ++ [entry]).map (shownInfo request)) = common := by
      rw [map_append, last_fold_append, map_singleton, folded]
      rfl
    rw [isLast] at afterShows ⊢
    exact clean_at_shown scannable whole folded afterShows

section Short

variable (proper : request.Proper) (scannable : Scannable entries)
  (short : (itemsOf request (window request entries marker)).length ≤ request.pageKeys)

include short

theorem next_last_shown (full : (window request entries marker).length = request.pageKeys + 1)
    (enough : if request.delimiter.isNone then
        0 < (itemsOf request (window request entries marker)).length
      else request.pageKeys ≤ (itemsOf request (window request entries marker)).length) :
    nextOf request entries marker =
      (lastShown (objectsOf (itemsOf request (window request entries marker)))
        (commonsOf (itemsOf request (window request entries marker)))).map itemName := by
  unfold nextOf nextMarkerOf
  rw [if_neg (by omega), decide_eq_true full, if_neg (by simp), if_pos enough]

include proper scannable

section

variable (full : (window request entries marker).length = request.pageKeys + 1)
  (enough : if request.delimiter.isNone then
    0 < (itemsOf request (window request entries marker)).length
    else request.pageKeys ≤ (itemsOf request (window request entries marker)).length)

include full enough

theorem object_accounts
    (last : (itemsOf request (window request entries marker)).getLast? = some (.object object)) :
    Accounts request entries marker := by
  obtain ⟨init, entry, tail, split, same, shows⟩ := last_item_split last
  rcases shows with ⟨_, isObject, listed⟩ | ⟨common, isCommon, _⟩
  · cases isObject
    have whole := behind_of_window split
    have isBehind : entry ∈ behind request entries marker := by
      rw [whole]
      simp
    have isNext := next_last_shown short full enough
    rw [lastShown, objects_last last, map_some, some_or, map_some, itemName,
      listed_name scannable isBehind listed] at isNext
    apply accounts_at proper scannable split _ isNext (clean_at_object proper scannable whole listed)
    rw [take_of_length_le short, same]
  · cases isCommon

theorem prefix_accounts
    (last : (itemsOf request (window request entries marker)).getLast? = some (.common common))
    (noObjects : objectsOf (itemsOf request (window request entries marker)) = [])
    (alone : ∀ entry ∈ behind request entries marker, common < entry.name →
      shownInfo request entry ≠ .folded common) : Accounts request entries marker := by
  obtain ⟨init, entry, tail, split, same, shows⟩ := last_item_split last
  rcases shows with ⟨_, isObject, _⟩ | ⟨_, isCommon, folded⟩
  · cases isObject
  · cases isCommon
    have whole := behind_of_window split
    have isBehind : entry ∈ behind request entries marker := by
      rw [whole]
      simp
    have folds : Folds ListEntry.name (shownInfo request) (behind request entries marker) :=
      behind_folds scannable
    have named : entry.name = common := by
      apply le_antisymm
      · exact not_lt.1 fun later => alone entry isBehind later folded
      · exact folds.below entry isBehind common folded
    have isNext := next_last_shown short full enough
    rw [lastShown, noObjects, commons_last last, getLast?_nil, map_none, none_or,
      map_some, map_some, itemName, ← named] at isNext
    apply accounts_at proper scannable split _ isNext
    · have isLast : lastFold "" ((init ++ [entry]).map (shownInfo request)) = common := by
        rw [map_append, last_fold_append, map_singleton, folded]
        rfl
      rw [isLast]
      intro other isOther
      rw [whole] at folds
      obtain ⟨_, tailSorted, _⟩ := pairwise_append.1 folds.sorted
      obtain ⟨entryBelow, _⟩ := pairwise_cons.1 tailSorted
      apply alone other
      · rw [whole]
        exact mem_append_right _ (mem_cons_of_mem _ isOther)
      · rw [← named]
        exact entryBelow other isOther
    · rw [take_of_length_le short, same]

end

theorem scanned_accounts (full : (window request entries marker).length = request.pageKeys + 1)
    (delimited : request.delimiter.isSome)
    (fewer : (itemsOf request (window request entries marker)).length < request.pageKeys)
    (apart : ∀ entry ∈ beyond request entries marker, ∀ common,
      shownInfo request entry = .folded common → ∀ earlier ∈ window request entries marker,
        shownInfo request earlier ≠ .folded common) : Accounts request entries marker := by
  obtain ⟨init, entry, isWindow⟩ : ∃ init entry, window request entries marker = init ++ [entry] := by
    rcases eq_nil_or_concat (window request entries marker) with empty | ⟨init, entry, isWindow⟩
    · rw [empty] at full
      cases full
    · exact ⟨init, entry, by rw [isWindow, concat_eq_append]⟩
  have isNext : nextOf request entries marker = some entry.name := by
    have notNone : ¬ request.delimiter.isNone = true := by
      rw [isNone_iff_eq_none]
      exact isSome_iff_ne_none.1 delimited
    unfold nextOf nextMarkerOf
    rw [if_neg (by omega), decide_eq_true full, if_neg (by simp)]
    have notEnough : ¬ request.pageKeys ≤ (itemsOf request (window request entries marker)).length := by
      omega
    simp only [notNone, notEnough]
    rw [isWindow, getLast?_concat]
    rfl
  apply accounts_at proper scannable isWindow _ isNext
  · intro other isOther folded
    rw [← isWindow] at folded
    rcases last_fold_cases ((window request entries marker).map (shownInfo request)) "" with empty | inWindow
    · rw [empty] at folded
      exact not_folded_empty proper (mem_of_mem_drop isOther) folded
    · obtain ⟨earlier, isEarlier, isLast⟩ := mem_map.1 inWindow
      exact apart other isOther _ folded earlier isEarlier isLast
  · rw [take_of_length_le short, isWindow]

omit proper scannable

theorem whole_accounts (notFull : (window request entries marker).length ≠ request.pageKeys + 1) :
    Accounts request entries marker := by
  have atMost := window_length_le request entries marker
  have whole : window request entries marker = behind request entries marker := by
    apply take_of_length_le
    unfold window at notFull atMost
    rw [length_take] at notFull atMost
    omega
  have isNext : nextOf request entries marker = none := by
    unfold nextOf nextMarkerOf
    rw [if_neg (by omega), decide_eq_false notFull, if_pos (show (!false) = true from rfl)]
  unfold Accounts
  rw [isNext, take_of_length_le short, whole]
  simp

end Short

theorem not_folded_undelimited (undelimited : request.delimiter = none)
    (isBehind : entry ∈ behind request entries marker) (common : String) :
    shownInfo request entry ≠ .folded common := by
  intro folded
  obtain ⟨delimiter, _, _, under⟩ := shown_info_folded (mem_candidates.1 isBehind).2.2 folded
  rw [under.delimited] at undelimited
  cases undelimited

theorem hidden_accounts (full : (window request entries marker).length = request.pageKeys + 1)
    (undelimited : request.delimiter = none)
    (empty : itemsOf request (window request entries marker) = [])
    (nothing : itemsOf request (beyond request entries marker) = []) :
    Accounts request entries marker := by
  have isNext : nextOf request entries marker = none := by
    unfold nextOf nextMarkerOf
    rw [empty, decide_eq_true full, undelimited]
    rfl
  have isWhole := window_append_beyond request entries marker
  unfold Accounts
  rw [isNext, empty, ← isWhole]
  change collect "" ((window request entries marker ++ beyond request entries marker).map _) = _
  rw [collect_cut]
  · change itemsOf request (window request entries marker) ++
      itemsOf request (beyond request entries marker) = _
    rw [empty, nothing]
    simp
  · intro entry member
    rw [isWhole] at member
    exact not_folded_undelimited undelimited member _
  · intro entry member
    exact not_folded_undelimited undelimited (mem_of_mem_drop member) _

theorem undelimited_last (undelimited : request.delimiter = none)
    (last : (itemsOf request (window request entries marker)).getLast? = some item) :
    ∃ object, item = .object object := by
  obtain ⟨init, entry, tail, split, _, shows⟩ := last_item_split last
  rcases shows with ⟨object, isObject, _⟩ | ⟨common, _, folded⟩
  · exact ⟨object, isObject⟩
  · have isBehind : entry ∈ behind request entries marker := by
      rw [behind_of_window split]
      simp
    exact absurd folded (not_folded_undelimited undelimited isBehind common)

theorem clean_accounts (proper : request.Proper) (scannable : Scannable entries)
    (clean : CleanPage request entries marker) : Accounts request entries marker := by
  by_cases longer : request.pageKeys < (itemsOf request (window request entries marker)).length
  · exact cut_accounts proper scannable clean longer
  have short := not_lt.1 longer
  by_cases full : (window request entries marker).length = request.pageKeys + 1
  · cases last : (itemsOf request (window request entries marker)).getLast? with
    | none =>
      have empty := getLast?_eq_none_iff.1 last
      cases undelimited : request.delimiter with
      | none => exact hidden_accounts full undelimited empty (clean.hidden full undelimited empty)
      | some delimiter =>
        have fewer : (itemsOf request (window request entries marker)).length < request.pageKeys := by
          rw [empty]
          exact proper.page_keys.2.1
        have delimited : request.delimiter.isSome := by
          rw [undelimited]
          rfl
        exact scanned_accounts proper scannable short full delimited fewer
          (clean.folded full delimited fewer)
    | some item =>
      have filled : 0 < (itemsOf request (window request entries marker)).length := by
        apply length_pos_of_ne_nil
        intro empty
        rw [empty] at last
        cases last
      cases undelimited : request.delimiter with
      | none =>
        obtain ⟨object, rfl⟩ := undelimited_last undelimited last
        refine object_accounts proper scannable short full ?_ last
        rw [undelimited]
        exact filled
      | some delimiter =>
        have delimited : request.delimiter.isSome := by
          rw [undelimited]
          rfl
        rcases short.lt_or_eq with fewer | exactly
        · exact scanned_accounts proper scannable short full delimited fewer
            (clean.folded full delimited fewer)
        · have enough : if request.delimiter.isNone then
              0 < (itemsOf request (window request entries marker)).length
            else request.pageKeys ≤ (itemsOf request (window request entries marker)).length := by
            rw [undelimited]
            exact exactly.ge
          cases item with
          | object object => exact object_accounts proper scannable short full enough last
          | common common =>
            rcases clean.filled full delimited exactly with ⟨object, isObject⟩ | ⟨noObjects, alone⟩
            · rw [last] at isObject
              cases isObject
            · exact prefix_accounts proper scannable short full enough last noObjects
                (alone common last)
  · exact whole_accounts short full

end Clean

section Listing

variable {request : ListRequest} {entries : List ListEntry}

/-- The pages follow each other by their markers. -/
def nextPage (request : ListRequest) (entries : List ListEntry) (marker : Option String) :
    Option (Option String) :=
  (listObjectsGeneric request entries marker).follow

def ListEntry.isVisible (entry : ListEntry) : Bool :=
  match entry.kind with
  | .object (some info) => !info.isPurging
  | _ => false

def listedKeys (request : ListRequest) (entries : List ListEntry) : List String :=
  (entries.filter fun entry => startsWith entry.name request.keyPrefix &&
    (entry.isVisible && !isDelimited request entry.name)).map ListEntry.name

/-- The entry is a directory, or an object that is not hidden by a pending purge. -/
def ListEntry.counts (entry : ListEntry) : Bool :=
  match entry.kind with
  | .object latest => !latest.any VersionInfo.isPurging
  | .directory => true

def IsCommonPrefix (request : ListRequest) (entries : List ListEntry) (common : String) : Prop :=
  ∃ entry ∈ entries, startsWith entry.name request.keyPrefix = true ∧ entry.counts = true ∧
    IsUnder request entry.name common

theorem page_shows (proper : request.Proper) (scannable : Scannable entries) (marker : Option String) :
    nextPage request entries marker = (nextOf request entries marker).map some := by
  unfold nextPage ListPage.follow
  rw [page_eq proper scannable]
  cases nextOf request entries marker <;> rfl

theorem shown_info_names (scannable : Scannable entries)
    (isBehind : entry ∈ behind request entries none) :
    (shownInfo request entry).items.map ListedObject.name =
      if entry.isVisible && !isDelimited request entry.name then [entry.name] else [] := by
  obtain ⟨isEntry, _, starts⟩ := mem_candidates.1 isBehind
  have decoded := scannable.decoded entry isEntry
  unfold shownInfo ListEntry.isVisible
  cases entry.kind with
  | directory =>
    rw [fold_or_items starts]
    split <;> rfl
  | object latest =>
    cases latest with
    | none =>
      change (foldOr request entry.name []).items.map _ = []
      rw [fold_or_items starts]
      split <;> rfl
    | some info =>
      have named : (ListedObject.fromFileInfo request entry.name info).name = entry.name := by
        change decodeDirObject entry.name = entry.name
        rw [decodeDirObject, if_neg (by rw [decoded]; exact Bool.false_ne_true)]
      by_cases purging : info.isPurging = true
      · simp [purging, Shown.items]
      · cases delimited : isDelimited request entry.name with
        | true => simp [purging, fold_or_items starts, delimited]
        | false => simp [purging, fold_or_items starts, delimited, named]

theorem listed_keys_eq (scannable : Scannable entries) :
    (objectsOf (itemsOf request (behind request entries none))).map ListedObject.name =
      listedKeys request entries := by
  rw [itemsOf, objects_collect, flatMap_map, map_flatMap]
  have each : ∀ entry ∈ behind request entries none,
      (shownInfo request entry).items.map ListedObject.name =
        if entry.isVisible && !isDelimited request entry.name then [entry.name] else [] :=
    fun entry member => shown_info_names scannable member
  have kept : behind request entries none =
      entries.filter fun entry => startsWith entry.name request.keyPrefix := rfl
  rw [flatMap_congr each, flat_map_filter (fun entry : ListEntry =>
    entry.isVisible && !isDelimited request entry.name) fun entry => [entry.name],
    ← map_eq_flatMap, kept, List.filter_filter]
  congr 2
  funext entry
  exact Bool.and_comm _ _

theorem shown_folded_iff (starts : startsWith entry.name request.keyPrefix = true)
    (common : String) :
    shownInfo request entry = .folded common ↔ entry.counts = true ∧ IsUnder request entry.name common := by
  unfold shownInfo ListEntry.counts
  cases entry.kind with
  | directory => simp [fold_or_folded_iff starts]
  | object latest =>
    by_cases purging : latest.any VersionInfo.isPurging = true
    · simp [purging]
    · simp [purging, fold_or_folded_iff starts]

theorem common_prefixes_once (proper : request.Proper) (scannable : Scannable entries) :
    (commonsOf (itemsOf request (behind request entries none))).Nodup ∧
      ∀ common, common ∈ commonsOf (itemsOf request (behind request entries none)) ↔
        IsCommonPrefix request entries common := by
  have folds : Folds ListEntry.name (shownInfo request) (behind request entries none) :=
    behind_folds scannable
  refine ⟨(commons_increasing (folds_up folds) "").imp fun less => less.ne, ?_⟩
  intro common
  constructor
  · intro member
    obtain ⟨entry, isBehind, folded⟩ := mem_map.1 (mem_of_mem_commons member)
    obtain ⟨isEntry, _, starts⟩ := mem_candidates.1 isBehind
    obtain ⟨counts, under⟩ := (shown_folded_iff starts common).1 folded
    exact ⟨entry, isEntry, starts, counts, under⟩
  · rintro ⟨entry, isEntry, starts, counts, under⟩
    have isBehind : entry ∈ behind request entries none := mem_candidates.2 ⟨isEntry, rfl, starts⟩
    have folded := (shown_folded_iff starts common).2 ⟨counts, under⟩
    rcases @mem_commons_of_mem _ _ _ _ common "" (mem_map.2 ⟨entry, isBehind, folded⟩) with empty | shown
    · exact absurd empty (under_not_empty proper.filled under)
    · exact shown

/-- The pages of a run whose markers tear nothing apart list every visible key and every common
prefix exactly once, and no page holds more than was asked for. The condition is one on the window
of each page that the run visits. -/
theorem clean_pages_add_up (proper : request.Proper) (scannable : Scannable entries)
    {visited : List (Option String)} (run : Run (nextPage request entries) none visited)
    (clean : ∀ marker ∈ visited, CleanPage request entries marker) :
    (visited.flatMap fun marker =>
        (listObjectsGeneric request entries marker).objects.map ListedObject.name) =
      listedKeys request entries ∧
    (visited.flatMap fun marker => (listObjectsGeneric request entries marker).prefixes).Nodup ∧
    (∀ common, common ∈ (visited.flatMap fun marker =>
        (listObjectsGeneric request entries marker).prefixes) ↔
      IsCommonPrefix request entries common) ∧
    ∀ marker ∈ visited, ((listObjectsGeneric request entries marker).objects.length +
      (listObjectsGeneric request entries marker).prefixes.length : Nat) ≤ request.maxKeys := by
  have total : visited.flatMap (fun marker =>
      (itemsOf request (window request entries marker)).take request.pageKeys) =
      itemsOf request (behind request entries none) := by
    refine @run_total _ _ _ (fun marker => itemsOf request (behind request entries marker)) _ _ _ run ?_
    intro marker member
    have accounts := clean_accounts proper scannable (clean marker member)
    unfold Accounts at accounts
    rw [page_shows proper scannable, Option.map_map]
    exact accounts
  have objects : (visited.flatMap fun marker => (listObjectsGeneric request entries marker).objects) =
      objectsOf (itemsOf request (behind request entries none)) := by
    rw [← total, objectsOf, filterMap_flatMap]
    apply flatMap_congr
    intro marker _
    rw [page_eq proper scannable]
    rfl
  have prefixes : (visited.flatMap fun marker => (listObjectsGeneric request entries marker).prefixes) =
      commonsOf (itemsOf request (behind request entries none)) := by
    rw [← total, commonsOf, filterMap_flatMap]
    apply flatMap_congr
    intro marker _
    rw [page_eq proper scannable]
    rfl
  obtain ⟨once, allCommon⟩ := common_prefixes_once proper scannable
  refine ⟨?_, ?_, ?_, ?_⟩
  · rw [← map_flatMap, objects, listed_keys_eq scannable]
  · rw [prefixes]
    exact once
  · rw [prefixes]
    exact allCommon
  · intro marker _
    have keys := proper.page_keys.2.2.1
    rw [page_eq proper scannable, items_length, length_take]
    omega

end Listing

def folderRequest (maxKeys : Int) : ListRequest where
  keyPrefix := ""
  delimiter := some "/"
  maxKeys := maxKeys
  versioned := fun _ => false

def plainInfo : VersionInfo where
  versionId := none
  modTime := ⟨1700000000000000000, OffsetDateTime.sample_in_range⟩
  versionPurgeStatus := .empty

def plainObject (name : String) : ListEntry := ⟨name, .object (some plainInfo)⟩

/-- An object whose latest version waits for its purge. -/
def purgingObject (name : String) : ListEntry :=
  ⟨name, .object (some { plainInfo with versionPurgeStatus := .pending })⟩

theorem folder_request_proper : (folderRequest 2).Proper := ⟨by decide, by decide⟩

def twoPages : List ListEntry := [plainObject "a", ⟨"b/", .directory⟩, plainObject "c"]

theorem two_pages_scannable : Scannable twoPages := ⟨by decide, by decide⟩

theorem two_pages_run : Run (nextPage (folderRequest 2) twoPages) none [none, some "b/"] :=
  .more (by decide) (.last (by decide))

theorem two_pages_add_up :
    ([none, some "b/"].flatMap fun marker =>
        (listObjectsGeneric (folderRequest 2) twoPages marker).objects.map ListedObject.name) =
      listedKeys (folderRequest 2) twoPages := by
  refine (clean_pages_add_up folder_request_proper two_pages_scannable two_pages_run ?_).1
  intro marker member
  simp only [mem_cons, not_mem_nil, or_false] at member
  rcases member with rfl | rfl
  · refine ⟨?_, ?_, ?_, ?_⟩
    · intro _ entry common isEntry folded
      cases isEntry
      cases folded
      rfl
    · exact fun _ _ exactly => absurd exactly (by decide)
    · exact fun _ _ fewer => absurd fewer (by decide)
    · exact fun _ undelimited => absurd undelimited (by decide)
  · refine ⟨?_, ?_, ?_, ?_⟩
    · exact fun longer => absurd longer (by decide)
    · exact fun full => absurd full (by decide)
    · exact fun full => absurd full (by decide)
    · exact fun full => absurd full (by decide)

def hiddenTail : List ListEntry := [plainObject "b", ⟨"x/", .directory⟩, purgingObject "z"]

/-- The marker is the last object, and the folder behind it is listed again. -/
theorem folder_listed_twice :
    ¬ ∀ (request : ListRequest) (entries : List ListEntry) (visited : List (Option String)),
      request.Proper → Scannable entries → Run (nextPage request entries) none visited →
      (visited.flatMap fun marker => (listObjectsGeneric request entries marker).prefixes).Nodup := by
  intro claim
  have run : Run (nextPage (folderRequest 2) hiddenTail) none [none, some "b"] :=
    .more (by decide) (.last (by decide))
  have once := claim (folderRequest 2) hiddenTail _ folder_request_proper ⟨by decide, by decide⟩ run
  exact absurd once (by decide)

section Progress

variable {request : ListRequest} {entries : List ListEntry} {marker : Option String} {next : String}
  {rest : List ListEntry}

/-- A page of one item from a full window, where the item is a common prefix: some entry of the
window does not lie behind it. -/
def Advances (request : ListRequest) (entries : List ListEntry) (marker : Option String) : Prop :=
  request.pageKeys = 1 → (window request entries marker).length = request.pageKeys + 1 →
    ∀ common, (itemsOf request (window request entries marker)).head? = some (.common common) →
      ∃ entry ∈ window request entries marker, entry.name ≤ common

theorem passed_shrinks (isBehind : entry ∈ behind request entries marker)
    (passed : entry.name ≤ next) :
    (behind request entries (some next)).length < (behind request entries marker).length := by
  have advances : ∀ old, marker = some old → old ≤ next := by
    intro old isMarker
    have later := (mem_candidates.1 isBehind).2.1
    rw [isMarker] at later
    exact (is_behind_some.1 later).le.trans passed
  have narrowed : behind request entries (some next) =
      (behind request entries marker).filter fun entry => next < entry.name :=
    candidates_narrow advances
  rw [narrowed, length_filter_lt_length_iff_exists]
  exact ⟨entry, isBehind, fun later => not_lt.2 passed (of_decide_eq_true later)⟩

theorem mem_behind (member : entry ∈ window request entries marker) :
    entry ∈ behind request entries marker := mem_of_mem_take member

theorem items_under_one
    (under : ∀ entry ∈ list, shownInfo request entry = .folded common ∨ shownInfo request entry = .listed []) :
    ∀ last : String, (collect last (list.map (shownInfo request))).length ≤ 1 ∧
      (last = common → collect last (list.map (shownInfo request)) = []) := by
  induction list with
  | nil => exact fun _ => ⟨Nat.zero_le _, fun _ => rfl⟩
  | cons entry rest ih =>
    intro last
    obtain ⟨here, others⟩ := forall_mem_cons.1 under
    rw [map_cons]
    rcases here with folded | hidden
    · rw [folded, collect]
      by_cases same : common = last
      · rw [if_pos same]
        exact ih others last
      · rw [if_neg same, (ih others common).2 rfl]
        exact ⟨le_rfl, fun isLast => absurd isLast.symm same⟩
    · rw [hidden]
      exact ih others last

/-- If the last item of a part of the window is a common prefix and the marker passes nothing,
then it is the only item. -/
theorem passes_or_single (scannable : Scannable entries)
    (part : window request entries marker = list ++ rest)
    (last : (itemsOf request list).getLast? = some (.common common)) :
    (∃ entry ∈ window request entries marker, entry.name ≤ common) ∨
      (itemsOf request list).length ≤ 1 := by
  by_cases passes : ∃ entry ∈ window request entries marker, entry.name ≤ common
  · exact .inl passes
  right
  push Not at passes
  obtain ⟨init, entry, tail, split, same, shows⟩ := last_item_split last
  have folded : shownInfo request entry = .folded common := by
    rcases shows with ⟨_, isObject, _⟩ | ⟨_, isCommon, folded⟩
    · cases isObject
    · cases isCommon
      exact folded
  have folds : Folds ListEntry.name (shownInfo request) (window request entries marker) :=
    window_folds scannable
  have within : ∀ other ∈ init ++ [entry], other ∈ window request entries marker := by
    intro other member
    rw [part, split]
    rcases mem_append.1 member with inInit | isEntry
    · simp [inInit]
    · simp [mem_singleton.1 isEntry]
  have below : ∀ other ∈ init ++ [entry], other.name ≤ entry.name := by
    have sorted := folds.sorted
    rw [part, split, append_assoc] at sorted
    intro other member
    rcases mem_append.1 member with inInit | isEntry
    · exact ((pairwise_append.1 sorted).2.2 other inInit entry (by simp)).le
    · rw [mem_singleton.1 isEntry]
  rw [same]
  have under : ∀ other ∈ init ++ [entry],
      shownInfo request other = .folded common ∨ shownInfo request other = .listed [] := by
    intro other member
    exact folds.between entry (within entry (by simp)) common folded other (within other member)
      (passes other (within other member)).le (below other member)
  exact (items_under_one under "").1

theorem object_passed (scannable : Scannable entries)
    (member : object ∈ objectsOf (itemsOf request (window request entries marker))) :
    ∃ entry ∈ window request entries marker, entry.name ≤ object.name := by
  rw [itemsOf, objects_collect, flatMap_map] at member
  obtain ⟨entry, isEntry, isItem⟩ := mem_flatMap.1 member
  refine ⟨entry, isEntry, ?_⟩
  have single : (shownInfo request entry).items.length ≤ 1 := shown_info_single entry
  have listed : shownInfo request entry = .listed [object] := by
    cases shown : shownInfo request entry with
    | folded common =>
      rw [shown] at isItem
      cases isItem
    | listed items =>
      rw [shown] at isItem single
      obtain ⟨one, isOne⟩ := length_eq_one_iff.1 (Nat.le_antisymm single (length_pos_of_mem isItem))
      have isObject : object ∈ items := isItem
      change items = [one] at isOne
      rw [isOne] at isObject ⊢
      rw [mem_singleton.1 isObject]
  exact (listed_name scannable (mem_behind isEntry) listed).ge

theorem marked_passes (scannable : Scannable entries)
    (part : window request entries marker = list ++ rest)
    (last : (itemsOf request list).getLast? = some item)
    (single : (itemsOf request list).length ≤ 1 → ∀ common, item = .common common →
      ∃ entry ∈ window request entries marker, entry.name ≤ common) :
    ∃ entry ∈ window request entries marker, entry.name ≤ itemName item := by
  cases item with
  | object object =>
    apply object_passed scannable
    rw [itemsOf, part, map_append, collect_append, objects_of_append]
    exact mem_append_left _ (mem_of_getLast? (objects_last last))
  | common common =>
    rcases passes_or_single scannable part last with passes | alone
    · exact passes
    · exact single alone common rfl

theorem last_shown_passes (scannable : Scannable entries) (advances : Advances request entries marker)
    (full : (window request entries marker).length = request.pageKeys + 1)
    (short : (itemsOf request (window request entries marker)).length ≤ request.pageKeys)
    (enough : if request.delimiter.isNone then
        0 < (itemsOf request (window request entries marker)).length
      else request.pageKeys ≤ (itemsOf request (window request entries marker)).length)
    (isNext : (lastShown (objectsOf (itemsOf request (window request entries marker)))
      (commonsOf (itemsOf request (window request entries marker)))).map itemName = some next) :
    ∃ entry ∈ window request entries marker, entry.name ≤ next := by
  cases last : (itemsOf request (window request entries marker)).getLast? with
  | none =>
    rw [getLast?_eq_none_iff.1 last] at isNext
    cases isNext
  | some item =>
    cases lastObject : (objectsOf (itemsOf request (window request entries marker))).getLast? with
    | some object =>
      rw [lastShown, lastObject] at isNext
      cases isNext
      exact object_passed scannable (mem_of_getLast? lastObject)
    | none =>
      have part : window request entries marker = window request entries marker ++ [] := by simp
      cases item with
      | object object =>
        rw [objects_last last] at lastObject
        cases lastObject
      | common common =>
        rw [lastShown, lastObject, commons_last last] at isNext
        cases isNext
        apply marked_passes scannable part last
        intro alone _ isCommon
        cases isCommon
        cases undelimited : request.delimiter with
        | none =>
          obtain ⟨object, impossible⟩ := undelimited_last undelimited last
          cases impossible
        | some delimiter =>
          rw [undelimited] at enough
          have atLeast : request.pageKeys ≤
              (itemsOf request (window request entries marker)).length := enough
          obtain ⟨only, isOnly⟩ : ∃ only,
              itemsOf request (window request entries marker) = [only] := by
            apply length_eq_one_iff.1
            have filled := length_pos_of_mem (mem_of_getLast? last)
            omega
          rw [isOnly] at atLeast last
          have one : request.pageKeys = 1 := by
            have filled : request.pageKeys ≤ 1 := atLeast
            rw [isOnly] at short
            have atMost : 1 ≤ request.pageKeys := short
            omega
          apply advances one full
          rw [isOnly]
          exact last

theorem next_passes (proper : request.Proper) (scannable : Scannable entries)
    (advances : Advances request entries marker) (isNext : nextOf request entries marker = some next) :
    ∃ entry ∈ window request entries marker, entry.name ≤ next := by
  have positive := proper.page_keys.2.1
  unfold nextOf nextMarkerOf at isNext
  split at isNext
  · rename_i longer
    obtain ⟨windowLength, itemsLength⟩ := dense_window longer
    have part := (take_append_drop request.pageKeys (window request entries marker)).symm
    have frontLength : ((window request entries marker).take request.pageKeys).length =
        request.pageKeys := by
      rw [length_take]
      omega
    obtain ⟨shows, _⟩ := front_shows request part (by omega)
    rw [frontLength] at shows
    rw [← shows] at isNext
    obtain ⟨item, last, rfl⟩ := map_eq_some_iff.1 isNext
    apply marked_passes scannable part last
    intro alone common isCommon
    subst isCommon
    rw [shows, length_take] at alone
    have one : request.pageKeys = 1 := by omega
    apply advances one windowLength common
    rw [shows, one] at last
    cases items : itemsOf request (window request entries marker) with
    | nil =>
      rw [items] at last
      cases last
    | cons first others =>
      rw [items] at last
      exact last
  · rename_i notLonger
    split at isNext
    · cases isNext
    · rename_i full
      have full : (window request entries marker).length = request.pageKeys + 1 := by
        simpa using full
      by_cases enough : if request.delimiter.isNone then
          0 < (itemsOf request (window request entries marker)).length
        else request.pageKeys ≤ (itemsOf request (window request entries marker)).length
      · rw [if_pos enough] at isNext
        exact last_shown_passes scannable advances full (not_lt.1 notLonger) enough isNext
      · rw [if_neg enough] at isNext
        split at isNext
        · cases isNext
        · obtain ⟨entry, last, rfl⟩ := map_eq_some_iff.1 isNext
          exact ⟨entry, mem_of_getLast? last, le_rfl⟩

theorem advancing_pages_end (proper : request.Proper) (scannable : Scannable entries)
    (start : Option String) (advances : ∀ marker, Reaches (nextPage request entries) start marker →
      Advances request entries marker) :
    ∃ visited, Run (nextPage request entries) start visited := by
  apply run_ends fun marker => (behind request entries marker).length
  intro marker following reached goes
  rw [page_shows proper scannable] at goes
  obtain ⟨next, isNext, rfl⟩ := map_eq_some_iff.1 goes
  obtain ⟨entry, isEntry, passed⟩ := next_passes proper scannable (advances marker reached) isNext
  exact passed_shrinks (mem_behind isEntry) passed

end Progress

/-- A truncated page names the next one, and the pages end if each of them moves on, as pages of
two items and more always do. The marker of the first page may be any text. -/
theorem pages_move_on {request : ListRequest} {entries : List ListEntry} (proper : request.Proper)
    (scannable : Scannable entries) (start : Option String) :
    (∀ marker, (listObjectsGeneric request entries marker).isTruncated = true →
      (listObjectsGeneric request entries marker).nextMarker.isSome) ∧
    ((∀ marker, Reaches (nextPage request entries) start marker → Advances request entries marker) →
      ∃ visited, Run (nextPage request entries) start visited) := by
  constructor
  · intro marker truncated
    rw [page_eq proper scannable] at truncated ⊢
    exact truncated
  · exact advancing_pages_end proper scannable start

/-- Pages of one item over an object, a folder and an object: the folder's page moves on. -/
theorem one_item_pages_end :
    (∃ visited, Run (nextPage (folderRequest 1) twoPages) none visited) ∧
      Run (nextPage (folderRequest 1) twoPages) none [none, some "a", some "b/"] := by
  refine ⟨(pages_move_on ⟨by decide, by decide⟩ two_pages_scannable none).2 ?_,
    .more (by decide) (.more (by decide) (.last (by decide)))⟩
  have closed : ∀ marker ∈ [none, some "a", some "b/"],
      (nextPage (folderRequest 1) twoPages marker).all (· ∈ [none, some "a", some "b/"]) = true := by
    decide
  intro marker reached
  have met : marker ∈ [none, some "a", some "b/"] := by
    induction reached with
    | refl => exact mem_cons_self
    | tail _ followed ih =>
      have next := closed _ ih
      rw [followed] at next
      exact of_decide_eq_true next
  simp only [mem_cons, not_mem_nil, or_false] at met
  rcases met with rfl | rfl | rfl
  · exact fun _ _ common first => by cases first
  · intro _ _ common first
    cases first
    exact ⟨⟨"b/", .directory⟩, by decide, le_refl _⟩
  · exact fun _ full => absurd full (by decide)

def dashRequest : ListRequest := { folderRequest 1 with delimiter := some "-" }

def dashed : List ListEntry := [plainObject "a-1", plainObject "a-2"]

/-- The common prefix is the marker of a page that shows it again. -/
theorem dashed_page_repeats :
    ¬ ∀ (request : ListRequest) (entries : List ListEntry) (start : Option String),
      request.Proper → Scannable entries → ∃ visited, Run (nextPage request entries) start visited := by
  intro claim
  obtain ⟨visited, run⟩ := claim dashRequest dashed (some "a-") ⟨by decide, by decide⟩
    ⟨by decide, by decide⟩
  exact no_run_of_loop (by decide) visited run

end Rustfs.Ecstore
