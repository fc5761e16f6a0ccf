import Rustfs.Ecstore.ListPage

/-!
# Pages of a version listing

`inner_list_object_versions` of `ecstore/src/store/list_objects.rs` with
`from_meta_cache_entries_sorted_versions` of `ecstore/src/object_api/types.rs`. A page goes on
inside of the key it stopped at: the marker of a version listing is a key and a version of it.
Versions with a pending purge are not listed, as for a client; the scan that asks for them is left
out. So is the cursor tag of the marker.
-/

namespace Rustfs.Ecstore

open List Option Bool Filemeta Library Library.Lists Library.Paging Utils

structure VersionsEntry where
  name : String
  versions : List VersionInfo
  deriving DecidableEq

def VersionMarker.matchesId (marker : VersionMarker) (info : VersionInfo) : Bool :=
  match marker with
  | .null => info.versionId.isNone
  | .version id => info.versionId = some id

def versionsAfterMarker (versions : List VersionInfo) (marker : VersionMarker) : List VersionInfo :=
  match versions.findIdx? marker.matchesId with
  | none => versions
  | some idx => versions.drop (idx + 1)

def listedVersions (request : ListRequest) (name : String) (versions : List VersionInfo) :
    List ListedObject :=
  (versions.filter fun info => !info.isPurging).map (.fromFileInfo request name)

/-- The loop of `from_meta_cache_entries_sorted_versions`: the version marker is used up by the
first entry that is not folded. -/
def shownVersions (request : ListRequest) : Option VersionMarker → List VersionsEntry →
    List (Shown String ListedObject)
  | _, [] => []
  | after, entry :: rest =>
    match foldedUnder request entry.name with
    | some slice => slice.elim (.listed []) .folded :: shownVersions request after rest
    | none =>
      .listed (listedVersions request entry.name
        ((after.map (versionsAfterMarker entry.versions)).getD entry.versions)) ::
          shownVersions request none rest

def fromMetaCacheEntriesSortedVersions (request : ListRequest) (after : Option VersionMarker)
    (entries : List VersionsEntry) : List (Item String ListedObject) :=
  collect "" (shownVersions request after entries)

def listVersionsScanLimit (maxKeys : Int) (hasVersionMarker : Bool) : Int :=
  if maxKeys ≤ 0 then 0 else maxKeysPlusOne maxKeys true + if hasVersionMarker then 1 else 0

def versionMarkerForEntries (entries : List VersionsEntry) (keyMarker : Option String)
    (versionMarker : Option VersionMarker) : Option VersionMarker :=
  versionMarker.bind fun marker =>
    match keyMarker with
    | none => some marker
    | some key => if entries.head?.map VersionsEntry.name = some key then some marker else none

abbrev VersionsMarker := Option String × Option VersionMarker

/-- The page computation of `inner_list_object_versions`; a version marker without a key is
refused. -/
def innerListObjectVersions (request : ListRequest) (entries : List VersionsEntry)
    (marker : VersionsMarker) : Option ListPage :=
  let maxKeys := normalizeMaxKeys request.maxKeys
  if marker.1.isNone && marker.2.isSome then none
  else
    let hasVersionMarker := marker.2.isSome
    let (found, diskHasMore) := listPath VersionsEntry.name entries request.keyPrefix marker.1
      hasVersionMarker (listVersionsScanLimit maxKeys hasVersionMarker)
    let scanned := if hasVersionMarker then found else forwardPast VersionsEntry.name found marker.1
    let versionMarker := versionMarkerForEntries scanned marker.1 marker.2
    some (listObjectsPaginate (fromMetaCacheEntriesSortedVersions request versionMarker scanned)
      request.delimiter maxKeys diskHasMore true (scanned.getLast?.map VersionsEntry.name))

def nextVersionsPage (request : ListRequest) (entries : List VersionsEntry) (marker : VersionsMarker) :
    Option VersionsMarker :=
  (innerListObjectVersions request entries marker).bind fun page =>
    if page.isTruncated then page.nextMarker.map fun next => (some next, page.nextVersionIdmarker)
    else none

def shownEntry (request : ListRequest) (entry : VersionsEntry) : Shown String ListedObject :=
  foldOr request entry.name (listedVersions request entry.name entry.versions)

/-- Entries as a scan delivers them: in the order of their names, decoded, each with versions of
different ids of which none is the nil id. -/
structure VersionsScannable (entries : List VersionsEntry) : Prop where
  sorted : entries.Pairwise fun one two => one.name < two.name
  decoded : ∀ entry ∈ entries, endsWith entry.name globalDirSuffix = false
  distinct : ∀ entry ∈ entries, (entry.versions.map VersionInfo.versionId).Nodup
  named : ∀ entry ∈ entries, ∀ info ∈ entry.versions, info.versionId ≠ some 0

variable {entry : VersionsEntry} {object : ListedObject}

section Shown

variable {request : ListRequest} {entries : List VersionsEntry}

theorem shown_versions_none (entries : List VersionsEntry) :
    shownVersions request none entries = entries.map (shownEntry request) := by
  induction entries with
  | nil => rfl
  | cons entry rest ih =>
    rw [shownVersions, map_cons, ← ih]
    unfold shownEntry foldOr
    cases foldedUnder request entry.name with
    | none => rfl
    | some slice => cases slice <;> rfl

theorem shown_entry_folded_iff
    (starts : startsWith entry.name request.keyPrefix = true) (common : String) :
    shownEntry request entry = .folded common ↔ IsUnder request entry.name common :=
  fold_or_folded_iff starts _

theorem shown_entry_folds {entries : List VersionsEntry}
    (sorted : entries.Pairwise fun one two => one.name < two.name)
    (starts : ∀ entry ∈ entries, startsWith entry.name request.keyPrefix = true) :
    Folds VersionsEntry.name (shownEntry request) entries where
  sorted := sorted
  below := by
    intro entry member common folded
    exact under_le ((shown_entry_folded_iff (starts entry member) common).1 folded)
  between := by
    intro entry member common folded other isOther lower upper
    left
    apply (shown_entry_folded_iff (starts other isOther) common).2
    exact under_between ((shown_entry_folded_iff (starts entry member) common).1 folded) lower upper

end Shown

section Remaining

variable {request : ListRequest} {entries : List VersionsEntry} {marker : VersionsMarker}

def versionsBehind (request : ListRequest) (entries : List VersionsEntry) (marker : VersionsMarker) :
    List VersionsEntry :=
  candidates VersionsEntry.name entries request.keyPrefix marker.1 marker.2.isSome

def dropShown (marker : Option VersionMarker) : List VersionsEntry → List VersionsEntry
  | [] => []
  | entry :: rest =>
    { entry with versions := (marker.map (versionsAfterMarker entry.versions)).getD entry.versions } ::
      rest

/-- What the pages from the marker on are made of. -/
def remaining (request : ListRequest) (entries : List VersionsEntry) (marker : VersionsMarker) :
    List VersionsEntry :=
  dropShown marker.2 (versionsBehind request entries marker)

def Resumes (request : ListRequest) (entries : List VersionsEntry) (marker : VersionsMarker) : Prop :=
  marker.2.isSome → ∃ entry ∈ entries, marker.1 = some entry.name ∧
    startsWith entry.name request.keyPrefix = true ∧ foldedUnder request entry.name = none

def scanSize (request : ListRequest) (marker : VersionsMarker) : Nat :=
  request.pageKeys + 1 + if marker.2.isSome then 1 else 0

def versionsWindow (request : ListRequest) (entries : List VersionsEntry) (marker : VersionsMarker) :
    List VersionsEntry :=
  (remaining request entries marker).take (scanSize request marker)

def versionsBeyond (request : ListRequest) (entries : List VersionsEntry) (marker : VersionsMarker) :
    List VersionsEntry :=
  (remaining request entries marker).drop (scanSize request marker)

def versionItems (request : ListRequest) (entries : List VersionsEntry) :
    List (Item String ListedObject) :=
  collect "" (entries.map (shownEntry request))

theorem drop_shown_none (list : List VersionsEntry) : dropShown none list = list := by
  cases list <;> rfl

theorem drop_shown_names (marker : Option VersionMarker) (list : List VersionsEntry) :
    (dropShown marker list).map VersionsEntry.name = list.map VersionsEntry.name := by
  cases list <;> rfl

theorem take_drop_shown (marker : Option VersionMarker) (list : List VersionsEntry) (count : Nat) :
    (dropShown marker list).take count = dropShown marker (list.take count) := by
  cases list <;> cases count <;> rfl

theorem shown_versions_resumed {rest : List VersionsEntry}
    (after : Option VersionMarker) (unfolded : foldedUnder request entry.name = none) :
    shownVersions request after (entry :: rest) =
      (dropShown after (entry :: rest)).map (shownEntry request) := by
  rw [shownVersions, unfolded, dropShown, map_cons]
  rw [shown_versions_none]
  unfold shownEntry foldOr
  rw [unfolded]

theorem candidates_from {E : Type} {name : E → String} {list : List E} {keyPrefix : String}
    (sorted : list.Pairwise fun one two => name one < name two) {entry : E} (isEntry : entry ∈ list)
    (starts : startsWith (name entry) keyPrefix = true) :
    candidates name list keyPrefix (some (name entry)) true =
      entry :: candidates name list keyPrefix (some (name entry)) false := by
  induction list with
  | nil => cases isEntry
  | cons first rest ih =>
    obtain ⟨below, restSorted⟩ := pairwise_cons.1 sorted
    unfold candidates at ih ⊢
    rw [filter_cons, filter_cons]
    rcases mem_cons.1 isEntry with rfl | inRest
    · have both : ∀ other ∈ rest, (isBehind (some (name entry)) true (name other) &&
          startsWith (name other) keyPrefix) =
          (isBehind (some (name entry)) false (name other) && startsWith (name other) keyPrefix) := by
        intro other member
        have later := below other member
        rw [is_behind_included.2 later.le, is_behind_some.2 later]
      have here : isBehind (some (name entry)) true (name entry) = true := is_behind_included.2 le_rfl
      have notBehind : isBehind (some (name entry)) false (name entry) = false := by
        rw [eq_false_iff]
        exact fun behind => lt_irrefl _ (is_behind_some.1 behind)
      rw [here, notBehind, starts, Bool.and_self, if_pos rfl, Bool.false_and,
        if_neg Bool.false_ne_true, filter_congr both]
    · have earlier := below entry inRest
      have notHere : isBehind (some (name entry)) true (name first) = false := by
        rw [eq_false_iff]
        exact fun behind => not_le.2 earlier (is_behind_included.1 behind)
      have notBehind : isBehind (some (name entry)) false (name first) = false := by
        rw [eq_false_iff]
        exact fun behind => lt_asymm earlier (is_behind_some.1 behind)
      rw [notHere, notBehind, Bool.false_and, if_neg Bool.false_ne_true, if_neg Bool.false_ne_true]
      exact ih restSorted inRest

theorem behind_resumed (scannable : VersionsScannable entries) (resumes : Resumes request entries marker)
    (resumed : marker.2.isSome) :
    ∃ entry ∈ entries, marker.1 = some entry.name ∧ foldedUnder request entry.name = none ∧
      versionsBehind request entries marker =
        entry :: candidates VersionsEntry.name entries request.keyPrefix (some entry.name) false := by
  obtain ⟨entry, isEntry, isMarker, starts, unfolded⟩ := resumes resumed
  refine ⟨entry, isEntry, isMarker, unfolded, ?_⟩
  unfold versionsBehind
  rw [isMarker, resumed]
  exact candidates_from scannable.sorted isEntry starts

theorem scan_window (proper : request.Proper) :
    listPath VersionsEntry.name entries request.keyPrefix marker.1 marker.2.isSome
        (listVersionsScanLimit (normalizeMaxKeys request.maxKeys) marker.2.isSome) =
      ((versionsBehind request entries marker).take (scanSize request marker),
        decide (((versionsBehind request entries marker).take (scanSize request marker)).length =
          scanSize request marker)) := by
  obtain ⟨isKeys, positive, _, _⟩ := proper.page_keys
  have limit : listVersionsScanLimit (normalizeMaxKeys request.maxKeys) marker.2.isSome =
      (scanSize request marker : Int) := by
    unfold listVersionsScanLimit scanSize
    rw [proper.scan_limit, ← isKeys, if_neg (by omega)]
    cases marker.2.isSome <;> simp
  have filled : ¬ (scanSize request marker : Int) ≤ 0 := by
    unfold scanSize
    omega
  rw [limit, listPath, if_neg filled]
  rfl

theorem window_eq (request : ListRequest) (entries : List VersionsEntry) (marker : VersionsMarker) :
    versionsWindow request entries marker =
      dropShown marker.2 ((versionsBehind request entries marker).take (scanSize request marker)) :=
  take_drop_shown _ _ _

theorem drop_shown_length (after : Option VersionMarker) (list : List VersionsEntry) :
    (dropShown after list).length = list.length := by
  cases list <;> rfl

theorem drop_shown_last (after : Option VersionMarker) (list : List VersionsEntry) :
    (dropShown after list).getLast?.map VersionsEntry.name = list.getLast?.map VersionsEntry.name := by
  rw [← getLast?_map, ← getLast?_map, drop_shown_names]

theorem versions_page_eq (proper : request.Proper) (scannable : VersionsScannable entries)
    (resumes : Resumes request entries marker) :
    innerListObjectVersions request entries marker =
      some (listObjectsPaginate (versionItems request (versionsWindow request entries marker))
        request.delimiter request.pageKeys
        ((versionsWindow request entries marker).length = scanSize request marker) true
        ((versionsWindow request entries marker).getLast?.map VersionsEntry.name)) := by
  have isKeys := proper.page_keys.1
  unfold innerListObjectVersions
  dsimp only
  rw [scan_window proper, window_eq, drop_shown_length, drop_shown_last, ← isKeys]
  cases resumed : marker.2 with
  | none =>
    have kept : forwardPast VersionsEntry.name
        ((versionsBehind request entries marker).take (scanSize request marker)) marker.1 =
        (versionsBehind request entries marker).take (scanSize request marker) := by
      apply forward_past_behind
      intro entry member
      have behind := (mem_candidates.1 (mem_of_mem_take member)).2.1
      rw [resumed] at behind
      exact behind
    rw [isSome_none, Bool.and_false, if_neg Bool.false_ne_true, if_neg Bool.false_ne_true, kept,
      drop_shown_none]
    unfold fromMetaCacheEntriesSortedVersions versionMarkerForEntries versionItems
    rw [bind_none, shown_versions_none]
  | some after =>
    obtain ⟨entry, _, isMarker, unfolded, isBehind⟩ := behind_resumed scannable resumes (by rw [resumed]; rfl)
    obtain ⟨count, isSize⟩ : ∃ count, scanSize request marker = count + 1 := ⟨_, Nat.add_right_comm _ _ _⟩
    have isMarked : versionMarkerForEntries ((versionsBehind request entries marker).take
        (scanSize request marker)) marker.1 (some after) = some after := by
      rw [isBehind, isSize, isMarker]
      simp [versionMarkerForEntries]
    rw [isMarker, isNone_some, Bool.false_and, if_neg Bool.false_ne_true, isSome_some,
      if_pos rfl, ← isMarker, isMarked]
    unfold fromMetaCacheEntriesSortedVersions versionItems
    rw [isBehind, isSize, take_succ_cons, shown_versions_resumed _ unfolded]

end Remaining

section Resume

variable {request : ListRequest} {name : String} {info : VersionInfo}

theorem marker_matches_iff (notNil : info.versionId ≠ some 0) (other : VersionInfo) :
    (ListedObject.fromFileInfo request name info).versionMarker.matchesId other = true ↔
      other.versionId = info.versionId := by
  unfold ListedObject.versionMarker ListedObject.fromFileInfo
  cases isId : info.versionId with
  | none =>
    split
    · rename_i id found
      split at found
      · simp only [getD_none, filter_eq_some_iff, Option.some.injEq] at found
        obtain ⟨rfl, impossible⟩ := found
        exact absurd impossible (by decide)
      · cases found
    · exact isNone_iff_eq_none
  | some id =>
    have filled : id ≠ Uuid.nil := fun nil => notNil (by rw [isId, nil]; rfl)
    have kept : (if request.versioned name = true then some ((some id).getD 0) else some id).filter
        (fun id => !id.isNil) = some id := by
      split <;> simp [Option.filter, Uuid.isNil, filled]
    rw [kept]
    exact decide_eq_true_iff

theorem versions_after_found {front back : List VersionInfo} {marker : VersionMarker}
    (apart : ∀ other ∈ front, marker.matchesId other = false) (here : marker.matchesId info = true) :
    versionsAfterMarker (front ++ info :: back) marker = back := by
  have found : (front ++ info :: back).findIdx? marker.matchesId = some front.length := by
    rw [findIdx?_append, findIdx?_eq_none_iff.2 apart, none_or, findIdx?_cons, here]
    simp
  unfold versionsAfterMarker
  rw [found]
  simp

theorem resumed_versions {versions tail : List VersionInfo} {before after : List ListedObject}
    (distinct : (versions.map VersionInfo.versionId).Nodup)
    (named : ∀ info ∈ versions, info.versionId ≠ some 0) (isTail : tail <:+ versions)
    (listed : listedVersions request name tail = before ++ object :: after) :
    listedVersions request name (versionsAfterMarker versions object.versionMarker) = after := by
  obtain ⟨gone, isVersions⟩ := isTail
  obtain ⟨shown, rest, isFiltered, rfl, isRest⟩ := map_eq_append_iff.1 listed
  obtain ⟨info, later, rfl, rfl, rfl⟩ := map_eq_cons_iff.1 isRest
  obtain ⟨front, behind, rfl, _, isBehind⟩ := filter_eq_append_iff.1 isFiltered
  obtain ⟨hidden, back, rfl, _, _, isBack⟩ := filter_eq_cons_iff.1 isBehind
  have split : versions = (gone ++ front ++ hidden) ++ info :: back := by
    rw [← isVersions]
    simp
  have member : info ∈ versions := by
    rw [split]
    simp
  have notNil := named info member
  rw [split, map_append, map_cons] at distinct
  obtain ⟨_, _, apart⟩ := nodup_append.1 distinct
  have skipped : versionsAfterMarker versions (ListedObject.fromFileInfo request name info).versionMarker =
      back := by
    rw [split]
    apply versions_after_found
    · intro other isOther
      rw [eq_false_iff]
      intro matched
      have same := (marker_matches_iff notNil other).1 matched
      exact apart _ (List.mem_map_of_mem isOther) _ mem_cons_self same
    · exact (marker_matches_iff notNil info).2 rfl
  rw [skipped, listedVersions, isBack]

end Resume

section Remaining

variable {request : ListRequest} {entries : List VersionsEntry} {marker : VersionsMarker}

theorem versions_after_suffix (versions : List VersionInfo) (marker : VersionMarker) :
    versionsAfterMarker versions marker <:+ versions := by
  unfold versionsAfterMarker
  split
  · exact suffix_refl _
  · exact drop_suffix _ _

theorem behind_sorted (request : ListRequest) (marker : VersionsMarker)
    (scannable : VersionsScannable entries) :
    (versionsBehind request entries marker).Pairwise fun one two => one.name < two.name :=
  scannable.sorted.filter _

theorem remaining_folds (scannable : VersionsScannable entries) :
    Folds VersionsEntry.name (shownEntry request) (remaining request entries marker) := by
  have names := drop_shown_names marker.2 (versionsBehind request entries marker)
  apply shown_entry_folds
  · have sorted := pairwise_map.2 (behind_sorted request marker scannable)
    rw [← names] at sorted
    exact pairwise_map.1 sorted
  · intro entry member
    have inNames : entry.name ∈ (remaining request entries marker).map VersionsEntry.name :=
      List.mem_map_of_mem member
    rw [remaining, names] at inNames
    obtain ⟨original, isBehind, same⟩ := mem_map.1 inNames
    rw [← same]
    exact (mem_candidates.1 isBehind).2.2

theorem remaining_split (scannable : VersionsScannable entries) {front back : List VersionsEntry}
    (split : remaining request entries marker = front ++ entry :: back) :
    ∃ original ∈ entries, original.name = entry.name ∧
      startsWith original.name request.keyPrefix = true ∧ entry.versions <:+ original.versions ∧
      candidates VersionsEntry.name entries request.keyPrefix (some entry.name) false = back := by
  obtain ⟨ahead, original, isBehind, same, isSuffix⟩ : ∃ ahead original,
      versionsBehind request entries marker = ahead ++ original :: back ∧ original.name = entry.name ∧
        entry.versions <:+ original.versions := by
    unfold remaining at split
    cases found : versionsBehind request entries marker with
    | nil =>
      rw [found] at split
      cases front <;> cases split
    | cons first rest =>
      rw [found, dropShown] at split
      cases front with
      | nil =>
        obtain ⟨isEntry, rfl⟩ := List.cons.inj split
        refine ⟨[], first, rfl, by rw [← isEntry], ?_⟩
        rw [← isEntry]
        cases marker.2 with
        | none => exact suffix_refl _
        | some after => exact versions_after_suffix _ _
      | cons other front =>
        obtain ⟨_, rfl⟩ := List.cons.inj split
        exact ⟨first :: front, entry, rfl, rfl, suffix_refl _⟩
  have member : original ∈ versionsBehind request entries marker := by
    rw [isBehind]
    simp
  obtain ⟨isEntry, later, starts⟩ := mem_candidates.1 member
  refine ⟨original, isEntry, same, starts, isSuffix, ?_⟩
  have sorted := behind_sorted request marker scannable
  rw [isBehind] at sorted
  obtain ⟨_, tailSorted, aheadBelow⟩ := pairwise_append.1 sorted
  obtain ⟨backAbove, _⟩ := pairwise_cons.1 tailSorted
  rw [append_cons] at isBehind
  rw [← same]
  apply candidates_cut isBehind
  · intro other isOther
    rcases mem_append.1 isOther with inAhead | isOriginal
    · exact (aheadBelow other inAhead original mem_cons_self).le
    · rw [mem_singleton.1 isOriginal]
  · exact backAbove
  · intro old isMarker
    rw [isMarker] at later
    cases resumed : marker.2.isSome with
    | false =>
      rw [resumed] at later
      exact (is_behind_some.1 later).le
    | true =>
      rw [resumed] at later
      exact is_behind_included.1 later

theorem window_append_versions (request : ListRequest) (entries : List VersionsEntry)
    (marker : VersionsMarker) :
    versionsWindow request entries marker ++ versionsBeyond request entries marker =
      remaining request entries marker :=
  take_append_drop _ _

end Remaining

section Clean

variable {request : ListRequest} {entries : List VersionsEntry} {marker : VersionsMarker}
  {front back : List VersionsEntry} {common : String} {list : List (Shown String ListedObject)}

/-- A page does not stop at a common prefix with keys behind it, and does not stop before the
end. -/
structure CleanVersionsPage (request : ListRequest) (entries : List VersionsEntry)
    (marker : VersionsMarker) : Prop where
  /-- The window shows more than a page and the page ends with a common prefix: no key behind
  the prefix is folded under it. -/
  cut : request.pageKeys < (versionItems request (versionsWindow request entries marker)).length →
    ∀ common, ((versionItems request (versionsWindow request entries marker)).take
        request.pageKeys).getLast? = some (.common common) →
      ∀ entry ∈ remaining request entries marker, common < entry.name →
        shownEntry request entry ≠ .folded common
  /-- The window shows no more than a page: what is beyond it is hidden, or folded under a common
  prefix of the window. -/
  whole : (versionItems request (versionsWindow request entries marker)).length ≤ request.pageKeys →
    ∀ entry ∈ versionsBeyond request entries marker, shownEntry request entry = .listed [] ∨
      ∃ common, shownEntry request entry = .folded common ∧
        ∃ earlier ∈ versionsWindow request entries marker, shownEntry request earlier = .folded common

variable {entry : VersionsEntry}

theorem not_folded_empty_entry (proper : request.Proper) (scannable : VersionsScannable entries)
    (member : entry ∈ remaining request entries marker) :
    shownEntry request entry ≠ .folded "" := by
  intro folded
  obtain ⟨front, back, split⟩ := append_of_mem member
  obtain ⟨original, _, same, starts, _, _⟩ := remaining_split scannable split
  rw [same] at starts
  exact under_not_empty proper.filled ((shown_entry_folded_iff starts "").1 folded) rfl

theorem versions_increasing (scannable : VersionsScannable entries) :
    (commonsOf (versionItems request (versionsWindow request entries marker))).Pairwise (· < ·) := by
  have folds : Folds VersionsEntry.name (shownEntry request) (versionsWindow request entries marker) :=
    folds_sublist (remaining_folds scannable) (take_sublist _ _)
  exact commons_increasing (folds_up folds) ""

def keptVersions (request : ListRequest) (entries : List VersionsEntry) (marker : VersionsMarker) :
    List (Item String ListedObject) :=
  (versionItems request (versionsWindow request entries marker)).take request.pageKeys

theorem paginate_versions {items : List (Item String ListedObject)} {delimiter : Option String}
    {keys : Nat} (positive : 0 < keys) (usize : asUsize keys = keys)
    (increasing : (commonsOf items).Pairwise (· < ·)) (full : Bool) (lastScanned : Option String) :
    listObjectsPaginate items delimiter keys full true lastScanned =
      { objects := objectsOf (items.take keys)
        prefixes := commonsOf (items.take keys)
        isTruncated := keys < items.length
        nextMarker := if keys < items.length then (items.take keys).getLast?.map itemName else none
        nextVersionIdmarker :=
          if keys < items.length then (items.take keys).getLast?.bind itemVersionMarker else none } := by
  have keptIncreasing : (commonsOf (items.take keys)).Pairwise (· < ·) :=
    increasing.sublist ((take_sublist _ _).filterMap _)
  have distinct := first_only_distinct _ [] keptIncreasing (by simp)
  have isPositive : ¬ (keys : Int) ≤ 0 := by omega
  have someKeys : (0 : Int) < keys := by omega
  unfold listObjectsPaginate
  simp only [usize, if_neg isPositive, distinct, someKeys]
  by_cases longer : keys < items.length
  all_goals simp [longer]

theorem versions_page (proper : request.Proper) (scannable : VersionsScannable entries)
    (resumes : Resumes request entries marker) :
    ∃ page, innerListObjectVersions request entries marker = some page ∧
      page.objects = objectsOf (keptVersions request entries marker) ∧
      page.prefixes = commonsOf (keptVersions request entries marker) := by
  rw [versions_page_eq proper scannable resumes,
    paginate_versions proper.page_keys.2.1 (as_usize_page_keys proper) (versions_increasing scannable)]
  exact ⟨_, rfl, rfl, rfl⟩

theorem next_versions_page (proper : request.Proper) (scannable : VersionsScannable entries)
    (resumes : Resumes request entries marker) :
    nextVersionsPage request entries marker =
      if request.pageKeys < (versionItems request (versionsWindow request entries marker)).length then
        (keptVersions request entries marker).getLast?.map fun item =>
          (some (itemName item), itemVersionMarker item)
      else none := by
  unfold nextVersionsPage
  rw [versions_page_eq proper scannable resumes,
    paginate_versions proper.page_keys.2.1 (as_usize_page_keys proper) (versions_increasing scannable),
    bind_some]
  by_cases longer : request.pageKeys < (versionItems request (versionsWindow request entries marker)).length
  · simp only [longer, decide_true, if_true]
    unfold keptVersions
    cases ((versionItems request (versionsWindow request entries marker)).take
      request.pageKeys).getLast? <;> rfl
  · simp only [longer, decide_false, false_eq_true, if_false]

theorem shown_behind (split : versionsWindow request entries marker = front ++ entry :: back) :
    remaining request entries marker = front ++ entry :: (back ++ versionsBeyond request entries marker) := by
  rw [← window_append_versions, split, append_assoc, cons_append]

/-- The page accounts for what lies between its marker and the next. -/
def VersionsAccount (request : ListRequest) (entries : List VersionsEntry) (marker : VersionsMarker) :
    Prop :=
  versionItems request (remaining request entries marker) =
    keptVersions request entries marker ++ ((nextVersionsPage request entries marker).map fun next =>
      versionItems request (remaining request entries next)).getD []

theorem listed_unfolded {items : List ListedObject} (filled : items ≠ [])
    (listed : shownEntry request entry = .listed items) :
    foldedUnder request entry.name = none ∧ listedVersions request entry.name entry.versions = items := by
  unfold shownEntry foldOr at listed
  split at listed
  · rename_i unfolded
    cases listed
    exact ⟨unfolded, rfl⟩
  · cases listed
    exact absurd rfl filled
  · cases listed

theorem version_accounts (proper : request.Proper) (scannable : VersionsScannable entries)
    {before after : List ListedObject}
    (split : versionsWindow request entries marker = front ++ entry :: back)
    (listed : shownEntry request entry = .listed (before ++ object :: after))
    (kept : keptVersions request entries marker =
      versionItems request front ++ (before ++ [object]).map .object)
    (next : nextVersionsPage request entries marker =
      some (some object.name, some object.versionMarker)) :
    VersionsAccount request entries marker ∧
      Resumes request entries (some object.name, some object.versionMarker) := by
  have whole := shown_behind split
  obtain ⟨original, isOriginal, same, starts, isSuffix, isBehind⟩ := remaining_split scannable whole
  obtain ⟨unfolded, isListed⟩ := listed_unfolded (by simp) listed
  rw [← same] at unfolded isListed isBehind
  have named : object.name = original.name := by
    have member : object ∈ listedVersions request original.name entry.versions := by
      rw [isListed]
      simp
    obtain ⟨info, _, rfl⟩ := mem_map.1 member
    change decodeDirObject original.name = original.name
    rw [decodeDirObject, if_neg]
    rw [scannable.decoded original isOriginal]
    exact Bool.false_ne_true
  have resumed := resumed_versions (scannable.distinct original isOriginal)
    (scannable.named original isOriginal) isSuffix isListed
  refine ⟨?_, fun _ => ⟨original, isOriginal, by rw [named], starts, unfolded⟩⟩
  have remains : remaining request entries (some object.name, some object.versionMarker) =
      { original with versions := versionsAfterMarker original.versions object.versionMarker } ::
        (back ++ versionsBeyond request entries marker) := by
    unfold remaining versionsBehind
    rw [named]
    change dropShown _ (candidates VersionsEntry.name entries request.keyPrefix (some original.name) true) = _
    rw [candidates_from scannable.sorted isOriginal starts, isBehind]
    rfl
  have shown : shownEntry request
      { original with versions := versionsAfterMarker original.versions object.versionMarker } =
      .listed after := by
    unfold shownEntry foldOr
    dsimp only
    rw [unfolded, resumed]
  have folds : Folds VersionsEntry.name (shownEntry request) (remaining request entries marker) :=
    remaining_folds scannable
  have unfoldedEmpty : ∀ other ∈ remaining request entries marker, shownEntry request other ≠ .folded "" :=
    fun _ => not_folded_empty_entry proper scannable
  rw [whole] at folds unfoldedEmpty
  unfold VersionsAccount
  rw [next, map_some, getD_some, kept, remains, whole, versionItems,
    collect_at_object folds unfoldedEmpty listed, versionItems, versionItems, map_cons, shown, collect]

theorem common_accounts (proper : request.Proper) (scannable : VersionsScannable entries)
    (split : versionsWindow request entries marker = front ++ entry :: back)
    (folded : shownEntry request entry = .folded common)
    (kept : keptVersions request entries marker = versionItems request front ++ [.common common])
    (fresh : common ≠ lastFold "" (front.map (shownEntry request)))
    (alone : ∀ other ∈ remaining request entries marker, common < other.name →
      shownEntry request other ≠ .folded common)
    (next : nextVersionsPage request entries marker = some (some common, none)) :
    VersionsAccount request entries marker ∧ Resumes request entries (some common, none) := by
  have whole := shown_behind split
  obtain ⟨_, _, _, _, _, isBehind⟩ := remaining_split scannable whole
  have folds : Folds VersionsEntry.name (shownEntry request) (remaining request entries marker) :=
    remaining_folds scannable
  have member : entry ∈ remaining request entries marker := by
    rw [whole]
    simp
  have named : entry.name = common := by
    apply le_antisymm
    · exact not_lt.1 fun later => alone entry member later folded
    · exact folds.below entry member common folded
  rw [named] at isBehind
  have remains : remaining request entries (some common, none) =
      back ++ versionsBeyond request entries marker := by
    unfold remaining versionsBehind
    rw [drop_shown_none]
    exact isBehind
  have later : ∀ other ∈ back ++ versionsBeyond request entries marker, common < other.name := by
    rw [whole] at folds
    obtain ⟨_, tailSorted, _⟩ := pairwise_append.1 folds.sorted
    rw [← named]
    exact (pairwise_cons.1 tailSorted).1
  have isRemaining : ∀ other ∈ back ++ versionsBeyond request entries marker,
      other ∈ remaining request entries marker := by
    intro other isOther
    rw [whole]
    exact mem_append_right _ (mem_cons_of_mem _ isOther)
  have unfoldedEmpty : ∀ other ∈ back ++ versionsBeyond request entries marker,
      shownEntry request other ≠ .folded "" := fun other isOther =>
    not_folded_empty_entry proper scannable (isRemaining other isOther)
  have cut := collect_at_common unfoldedEmpty folded fresh fun other isOther =>
    alone other (isRemaining other isOther) (later other isOther)
  refine ⟨?_, fun resumed => by cases resumed⟩
  unfold VersionsAccount
  rw [next, map_some, getD_some, kept, remains, whole, versionItems, cut, versionItems,
    versionItems]

theorem le_last_fold (up : FoldsUp list)
    (member : Shown.folded common ∈ list) : ∀ last, common ≤ lastFold last list := by
  induction list with
  | nil => cases member
  | cons shown rest ih =>
    intro last
    obtain ⟨here, restUp⟩ := pairwise_cons.1 up
    rcases mem_cons.1 member with isShown | inRest
    · rw [← isShown, lastFold]
      rcases last_fold_cases rest common with same | inRest
      · exact same.ge
      · exact here _ inRest common _ isShown.symm rfl
    · cases shown with
      | folded under => exact ih restUp inRest under
      | listed items => exact ih restUp inRest last

theorem collect_nothing {last : String}
    (silent : ∀ shown ∈ list, shown = .listed [] ∨ shown = .folded last) : collect last list = [] := by
  induction list with
  | nil => rfl
  | cons shown rest ih =>
    obtain ⟨here, others⟩ := forall_mem_cons.1 silent
    rcases here with rfl | rfl
    · exact ih others
    · rw [collect, if_pos rfl]
      exact ih others

theorem end_accounts (scannable : VersionsScannable entries)
    (short : (versionItems request (versionsWindow request entries marker)).length ≤ request.pageKeys)
    (clean : CleanVersionsPage request entries marker)
    (next : nextVersionsPage request entries marker = none) :
    VersionsAccount request entries marker := by
  have folds : Folds VersionsEntry.name (shownEntry request) (remaining request entries marker) :=
    remaining_folds scannable
  have up := folds_up folds
  rw [← window_append_versions, map_append] at up
  obtain ⟨windowUp, _, across⟩ := pairwise_append.1 up
  have silent : collect (lastFold "" ((versionsWindow request entries marker).map (shownEntry request)))
      ((versionsBeyond request entries marker).map (shownEntry request)) = [] := by
    apply collect_nothing
    intro shown member
    obtain ⟨entry, isEntry, rfl⟩ := mem_map.1 member
    rcases clean.whole short entry isEntry with hidden | ⟨common, folded, earlier, isEarlier, earlierFolded⟩
    · exact .inl hidden
    · right
      have inWindow : Shown.folded common ∈ (versionsWindow request entries marker).map (shownEntry request) :=
        mem_map.2 ⟨earlier, isEarlier, earlierFolded⟩
      have atLeast := le_last_fold windowUp inWindow ""
      rcases last_fold_cases ((versionsWindow request entries marker).map (shownEntry request)) "" with
        empty | isLast
      · have emptyLeast : "" ≤ common := by
          rw [String.le_iff_toList_le]
          exact not_lt.1 (not_lt_nil _)
        rw [empty] at atLeast ⊢
        rw [folded, le_antisymm atLeast emptyLeast]
      · have atMost := across _ isLast _ member _ common rfl folded
        rw [folded, le_antisymm atMost atLeast]
  unfold VersionsAccount
  rw [next, keptVersions, take_of_length_le short, ← window_append_versions, versionItems,
    map_append, collect_append, silent]
  rfl

theorem versions_account (proper : request.Proper) (scannable : VersionsScannable entries)
    (resumes : Resumes request entries marker) (clean : CleanVersionsPage request entries marker) :
    VersionsAccount request entries marker ∧
      ∀ next, nextVersionsPage request entries marker = some next → Resumes request entries next := by
  have isNext := next_versions_page proper scannable resumes
  by_cases longer : request.pageKeys < (versionItems request (versionsWindow request entries marker)).length
  · rw [if_pos longer] at isNext
    obtain ⟨item, front, entry, back, last, split, shows⟩ := collect_stop proper.page_keys.2.1 longer
    change (keptVersions request entries marker).getLast? = some item at last
    rw [last, map_some] at isNext
    rcases shows with ⟨object, before, after, rfl, listed, kept⟩ | ⟨common, rfl, folded, kept, fresh⟩
    · obtain ⟨accounts, goesOn⟩ := version_accounts proper scannable split listed kept isNext
      refine ⟨accounts, fun next found => ?_⟩
      rw [isNext] at found
      cases found
      exact goesOn
    · obtain ⟨accounts, goesOn⟩ := common_accounts proper scannable split folded kept fresh
        (clean.cut longer common last) isNext
      refine ⟨accounts, fun next found => ?_⟩
      rw [isNext] at found
      cases found
      exact goesOn
  · rw [if_neg longer] at isNext
    refine ⟨end_accounts scannable (not_lt.1 longer) clean isNext, fun next found => ?_⟩
    rw [isNext] at found
    cases found

end Clean

variable {marker : VersionsMarker}

section Listing

variable {request : ListRequest} {entries : List VersionsEntry}

def pageVersions (request : ListRequest) (entries : List VersionsEntry) (marker : VersionsMarker) :
    List ListedObject :=
  (innerListObjectVersions request entries marker).elim [] ListPage.objects

def pagePrefixes (request : ListRequest) (entries : List VersionsEntry) (marker : VersionsMarker) :
    List String :=
  (innerListObjectVersions request entries marker).elim [] ListPage.prefixes

def visibleVersions (request : ListRequest) (entries : List VersionsEntry) : List ListedObject :=
  (entries.filter fun entry => startsWith entry.name request.keyPrefix &&
    !isDelimited request entry.name).flatMap fun entry =>
      listedVersions request entry.name entry.versions

theorem remaining_start (request : ListRequest) (entries : List VersionsEntry) :
    remaining request entries (none, none) =
      entries.filter fun entry => startsWith entry.name request.keyPrefix := by
  unfold remaining
  rw [drop_shown_none]
  rfl

theorem visible_versions_eq :
    objectsOf (versionItems request (remaining request entries (none, none))) =
      visibleVersions request entries := by
  have each : ∀ entry ∈ entries.filter fun entry => startsWith entry.name request.keyPrefix,
      (shownEntry request entry).items = if !isDelimited request entry.name then
        listedVersions request entry.name entry.versions else [] := by
    intro entry member
    have starts := (mem_filter.1 member).2
    rw [shownEntry, fold_or_items starts]
    cases isDelimited request entry.name <;> rfl
  rw [versionItems, objects_collect, flatMap_map, remaining_start, flatMap_congr each,
    flat_map_filter fun entry : VersionsEntry => !isDelimited request entry.name, List.filter_filter]
  congr 2
  funext entry
  exact Bool.and_comm _ _

theorem versions_prefixes_once (proper : request.Proper) (scannable : VersionsScannable entries) :
    (commonsOf (versionItems request (remaining request entries (none, none)))).Nodup ∧
      ∀ common, common ∈ commonsOf (versionItems request (remaining request entries (none, none))) ↔
        ∃ entry ∈ entries, startsWith entry.name request.keyPrefix = true ∧
          IsUnder request entry.name common := by
  have folds : Folds VersionsEntry.name (shownEntry request) (remaining request entries (none, none)) :=
    remaining_folds scannable
  refine ⟨(commons_increasing (folds_up folds) "").imp fun less => less.ne, ?_⟩
  intro common
  constructor
  · intro member
    obtain ⟨entry, isRemaining, folded⟩ := mem_map.1 (mem_of_mem_commons member)
    rw [remaining_start] at isRemaining
    obtain ⟨isEntry, starts⟩ := mem_filter.1 isRemaining
    exact ⟨entry, isEntry, starts, (shown_entry_folded_iff starts common).1 folded⟩
  · rintro ⟨entry, isEntry, starts, under⟩
    have isRemaining : entry ∈ remaining request entries (none, none) := by
      rw [remaining_start]
      exact mem_filter.2 ⟨isEntry, starts⟩
    have folded := (shown_entry_folded_iff starts common).2 under
    rcases @mem_commons_of_mem _ _ _ _ common "" (mem_map.2 ⟨entry, isRemaining, folded⟩) with
      empty | shown
    · exact absurd empty (under_not_empty proper.filled under)
    · exact shown

theorem reached_resumes (proper : request.Proper) (scannable : VersionsScannable entries)
    (clean : ∀ marker, Reaches (nextVersionsPage request entries) (none, none) marker →
      CleanVersionsPage request entries marker)
    (reached : Reaches (nextVersionsPage request entries) (none, none) marker) :
    Resumes request entries marker := by
  induction reached with
  | refl => exact fun resumed => by cases resumed
  | tail earlier goes ih => exact (versions_account proper scannable ih (clean _ earlier)).2 _ goes

/-- The pages whose cuts are clean end, and list every visible version and every common prefix
exactly once. Termination is part of it: the cuts are looked at on every page that can be
reached. -/
theorem clean_versions_add_up (proper : request.Proper) (scannable : VersionsScannable entries)
    (clean : ∀ marker, Reaches (nextVersionsPage request entries) (none, none) marker →
      CleanVersionsPage request entries marker) :
    ∃ visited, Run (nextVersionsPage request entries) (none, none) visited ∧
      visited.flatMap (pageVersions request entries) = visibleVersions request entries ∧
      (visited.flatMap (pagePrefixes request entries)).Nodup ∧
      ∀ common, common ∈ visited.flatMap (pagePrefixes request entries) ↔
        ∃ entry ∈ entries, startsWith entry.name request.keyPrefix = true ∧
          IsUnder request entry.name common := by
  have accounts : ∀ marker, Reaches (nextVersionsPage request entries) (none, none) marker →
      VersionsAccount request entries marker := fun marker reached =>
    (versions_account proper scannable (reached_resumes proper scannable clean reached)
      (clean marker reached)).1
  have ends : ∃ visited, Run (nextVersionsPage request entries) (none, none) visited := by
    apply run_ends fun marker => (versionItems request (remaining request entries marker)).length
    intro marker next reached goes
    have account := accounts marker reached
    unfold VersionsAccount at account
    have isNext := next_versions_page proper scannable (reached_resumes proper scannable clean reached)
    rw [goes] at account isNext
    split at isNext
    · rename_i longer
      have positive := proper.page_keys.2.1
      rw [account, length_append, keptVersions, length_take, map_some, getD_some]
      omega
    · cases isNext
  obtain ⟨visited, run⟩ := ends
  have total : visited.flatMap (keptVersions request entries) =
      versionItems request (remaining request entries (none, none)) :=
    @run_total _ _ _ (fun marker => versionItems request (remaining request entries marker)) _ _ _ run
      fun marker member => accounts marker (visited_reached run marker member)
  have page : ∀ marker ∈ visited, pageVersions request entries marker =
      objectsOf (keptVersions request entries marker) ∧ pagePrefixes request entries marker =
        commonsOf (keptVersions request entries marker) := by
    intro marker member
    obtain ⟨page, isPage, objects, prefixes⟩ := versions_page proper scannable
      (reached_resumes proper scannable clean (visited_reached run marker member))
    unfold pageVersions pagePrefixes
    rw [isPage]
    exact ⟨objects, prefixes⟩
  have versions : visited.flatMap (pageVersions request entries) =
      objectsOf (versionItems request (remaining request entries (none, none))) := by
    rw [← total, objectsOf, filterMap_flatMap]
    exact flatMap_congr fun marker member => (page marker member).1
  have prefixes : visited.flatMap (pagePrefixes request entries) =
      commonsOf (versionItems request (remaining request entries (none, none))) := by
    rw [← total, commonsOf, filterMap_flatMap]
    exact flatMap_congr fun marker member => (page marker member).2
  obtain ⟨once, allCommon⟩ := versions_prefixes_once proper scannable
  refine ⟨visited, run, ?_, ?_, ?_⟩
  · rw [versions, visible_versions_eq]
  · rw [prefixes]
    exact once
  · rw [prefixes]
    exact allCommon

end Listing

def versionsRequest : ListRequest where
  keyPrefix := ""
  delimiter := some "/"
  maxKeys := 2
  versioned := fun _ => true

theorem versions_request_proper : versionsRequest.Proper := ⟨by decide, by decide⟩

def storedVersion (id : Option Uuid) (status : VersionPurgeStatusType) : VersionInfo where
  versionId := id
  modTime := ⟨1700000000000000000, OffsetDateTime.sample_in_range⟩
  versionPurgeStatus := status

def nullResumed : List VersionsEntry :=
  [⟨"a", [storedVersion (some 7) .empty, storedVersion none .empty]⟩,
    ⟨"b", [storedVersion (some 8) .empty]⟩]

theorem null_resumed_scannable : VersionsScannable nullResumed :=
  ⟨by decide, by decide, by decide, by decide⟩

theorem null_resumed_reached
    (reached : Reaches (nextVersionsPage versionsRequest nullResumed) (none, none) marker) :
    marker = (none, none) ∨ marker = (some "a", some .null) := by
  induction reached with
  | refl => exact .inl rfl
  | tail _ goes ih =>
    rcases ih with rfl | rfl
    · have first : nextVersionsPage versionsRequest nullResumed (none, none) =
          some (some "a", some .null) := by decide
      rw [first] at goes
      cases goes
      exact .inr rfl
    · have last : nextVersionsPage versionsRequest nullResumed (some "a", some .null) = none := by
        decide
      rw [last] at goes
      cases goes

theorem null_resumed_adds_up :
    ∃ visited, Run (nextVersionsPage versionsRequest nullResumed) (none, none) visited ∧
      visited.flatMap (pageVersions versionsRequest nullResumed) =
        visibleVersions versionsRequest nullResumed := by
  obtain ⟨visited, run, versions, _⟩ :=
    clean_versions_add_up versions_request_proper null_resumed_scannable (by
      intro marker reached
      rcases null_resumed_reached reached with rfl | rfl
      · refine ⟨?_, fun short => absurd short (by decide)⟩
        intro _ common last
        have object : ((versionItems versionsRequest (versionsWindow versionsRequest nullResumed
            (none, none))).take versionsRequest.pageKeys).getLast? =
            some (.object (.fromFileInfo versionsRequest "a" (storedVersion none .empty))) := by decide
        rw [object] at last
        cases last
      · refine ⟨fun longer => absurd longer (by decide), ?_⟩
        intro _ entry member
        have empty : versionsBeyond versionsRequest nullResumed (some "a", some .null) = [] := by decide
        rw [empty] at member
        cases member)
  exact ⟨visited, run, versions⟩

def hiddenFirst : List VersionsEntry :=
  [⟨"a", [storedVersion (some 7) .pending]⟩, ⟨"b", [storedVersion (some 8) .empty]⟩,
    ⟨"c", [storedVersion (some 9) .empty]⟩, ⟨"d", [storedVersion (some 10) .empty]⟩]

/-- A hidden version leaves two items in the window of three keys, and the listing ends there. -/
theorem last_version_not_listed :
    ¬ ∀ (request : ListRequest) (entries : List VersionsEntry) (visited : List VersionsMarker),
      request.Proper → VersionsScannable entries →
      Run (nextVersionsPage request entries) (none, none) visited →
      visited.flatMap (pageVersions request entries) = visibleVersions request entries := by
  intro claim
  have run : Run (nextVersionsPage versionsRequest hiddenFirst) (none, none) [(none, none)] :=
    .last (by decide)
  have all := claim versionsRequest hiddenFirst _ versions_request_proper
    ⟨by decide, by decide, by decide, by decide⟩ run
  exact absurd all (by decide)

end Rustfs.Ecstore
