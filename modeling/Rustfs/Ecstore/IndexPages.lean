import Rustfs.Ecstore.ListPage

/-!
# Listings served from an index

`list_objects_from_verified_index_candidates_with_optional_stats` and
`list_objects_from_metadata_snapshot_candidates` of `ecstore/src/store/list_objects.rs`: a page is
made from candidate keys, which are folded or checked one by one until the page is full. The choice
of the provider, its counters and errors of the live check are left out.
-/

namespace Rustfs.Ecstore

open List Filemeta Library Library.Lists Library.Paging Utils

/-- Candidates in the order of their keys, and the object that each of them stands for. -/
structure IndexSource (C O : Type) where
  key : C → String
  live : C → Option O
  name : O → String
  named : ∀ candidate object, live candidate = some object → name object = key candidate

/-- The common prefix of a key; the prefix is trimmed as often as it comes. -/
def indexPrefix (request : ListRequest) (key : String) : Option String :=
  match request.delimiter with
  | none => none
  | some separator =>
    if separator.isEmpty then none
    else (beforeFirst separator.toList (trimStartMatches key request.keyPrefix).toList).map
      fun before => request.keyPrefix ++ .ofList before ++ separator

structure IndexPage (O : Type) where
  objects : List O
  prefixes : List String
  isTruncated : Bool
  nextMarker : Option String

section Model

variable {C O : Type} (source : IndexSource C O) (request : ListRequest)

def entryMarker : Item String O → String
  | .common name => name
  | .object object => source.name object

/-- The loop over the candidates, which stops when there is one entry too many. -/
def visibleEntries (marker : Option String) (pageLimit : Nat) :
    List (Item String O) → List String → List C → List (Item String O)
  | visible, _, [] => visible
  | visible, prefixSet, candidate :: rest =>
    if (marker.any fun marker => source.key candidate ≤ marker) ||
        !startsWith (source.key candidate) request.keyPrefix then
      visibleEntries marker pageLimit visible prefixSet rest
    else
      match indexPrefix request (source.key candidate) with
      | some common =>
        let inserted := if common ∈ prefixSet then visible else visible ++ [.common common]
        if pageLimit ≤ inserted.length then inserted
        else visibleEntries marker pageLimit inserted (common :: prefixSet) rest
      | none =>
        match source.live candidate with
        | some object =>
          if pageLimit ≤ (visible ++ [Item.object object]).length then visible ++ [.object object]
          else visibleEntries marker pageLimit (visible ++ [.object object]) prefixSet rest
        | none => visibleEntries marker pageLimit visible prefixSet rest

def indexPage (candidates : List C) (marker : Option String) : IndexPage O :=
  let maxKeys := normalizeMaxKeys request.maxKeys
  if maxKeys ≤ 0 then ⟨[], [], false, none⟩
  else
    let visible := visibleEntries source request marker (asUsize (maxKeysPlusOne maxKeys true)) [] []
      candidates
    let isTruncated := asUsize maxKeys < visible.length
    let kept := if isTruncated then visible.take (asUsize maxKeys) else visible
    { objects := objectsOf kept
      prefixes := commonsOf kept
      isTruncated := isTruncated
      nextMarker := if isTruncated then kept.getLast?.map (entryMarker source) else none }

end Model

def followPage {O : Type} (page : Option String → IndexPage O) (marker : Option String) :
    Option (Option String) :=
  if (page marker).isTruncated then (page marker).nextMarker.map some else none

/-- The object of a key as the live metadata has it. -/
def verifiedIndex {O : Type} (name : O → String) (liveVerify : String → Option O)
    (named : ∀ key object, liveVerify key = some object → name object = key) :
    IndexSource String O :=
  ⟨id, liveVerify, name, named⟩

/-- `list_objects_from_verified_index_candidates_with_optional_stats`. -/
def listObjectsFromVerifiedIndexCandidates {O : Type} (name : O → String)
    (liveVerify : String → Option O)
    (named : ∀ key object, liveVerify key = some object → name object = key) (request : ListRequest)
    (candidateKeys : List String) (marker : Option String) : IndexPage O :=
  indexPage (verifiedIndex name liveVerify named) request candidateKeys marker

structure PersistentListMetadataObject where
  name : String
  size : Int64
  modTime : Option OffsetDateTime
  etag : Option String
  storageClass : Option String
  deriving DecidableEq

def metadataSnapshot : IndexSource PersistentListMetadataObject PersistentListMetadataObject where
  key := PersistentListMetadataObject.name
  live := some
  name := PersistentListMetadataObject.name
  named := by
    intro candidate object isObject
    cases isObject
    rfl

def listObjectsFromMetadataSnapshotCandidates (request : ListRequest)
    (candidateObjects : List PersistentListMetadataObject) (marker : Option String) :
    IndexPage PersistentListMetadataObject :=
  indexPage metadataSnapshot request candidateObjects marker

/-- Trimmed as often as it comes, the prefix leaves what it leaves when it is trimmed once: the
same text in front of the first delimiter, or no delimiter. -/
def FoldsAlike {C : Type} (key : C → String) (request : ListRequest) (candidates : List C) : Prop :=
  ∀ candidate ∈ candidates, startsWith (key candidate) request.keyPrefix = true →
    foldedUnder request (key candidate) = (indexPrefix request (key candidate)).map some

/-- No key goes on with the prefix again. -/
def RepeatFree {C : Type} (key : C → String) (request : ListRequest) (candidates : List C) : Prop :=
  ∀ candidate ∈ candidates, startsWith (key candidate) request.keyPrefix = true →
    request.keyPrefix ≠ "" →
    startsWith (dropPrefix (key candidate) request.keyPrefix) request.keyPrefix = false

section Trim

variable {request : ListRequest} {key : String}

theorem trim_once (starts : startsWith key request.keyPrefix = true)
    (once : request.keyPrefix ≠ "" →
      startsWith (dropPrefix key request.keyPrefix) request.keyPrefix = false) :
    (trimStartMatches key request.keyPrefix).toList = (dropPrefix key request.keyPrefix).toList := by
  obtain ⟨rest, isKey⟩ := (starts_with_iff _ _).1 starts
  rw [drop_prefix_of isKey]
  unfold trimStartMatches
  by_cases empty : request.keyPrefix.isEmpty
  · rw [if_pos empty, isKey, String.isEmpty_iff.1 empty]
    rfl
  · have filled : request.keyPrefix ≠ "" := fun isEmpty => empty (String.isEmpty_iff.2 isEmpty)
    have notAgain := once filled
    unfold startsWith at notAgain
    rw [drop_prefix_of isKey] at notAgain
    have positive : 0 < request.keyPrefix.toList.length := by
      apply length_pos_of_ne_nil
      intro nil
      exact filled (String.toList_inj.1 nil)
    obtain ⟨rounds, isRounds⟩ : ∃ rounds, key.toList.length = rounds + 1 := by
      refine ⟨key.toList.length - 1, ?_⟩
      rw [isKey, length_append]
      omega
    have here : request.keyPrefix.toList.isPrefixOf key.toList = true := starts
    rw [if_neg empty, String.toList_ofList, isRounds, trimLoop, if_pos here, isKey, drop_left]
    cases rounds with
    | zero => rfl
    | succ rounds => rw [trimLoop, if_neg (by rw [notAgain]; exact Bool.false_ne_true)]

theorem index_prefix_eq (filled : request.delimiter ≠ some "")
    (starts : startsWith key request.keyPrefix = true) (once : request.keyPrefix ≠ "" →
      startsWith (dropPrefix key request.keyPrefix) request.keyPrefix = false) :
    foldedUnder request key = (indexPrefix request key).map some := by
  unfold indexPrefix
  cases delimited : request.delimiter with
  | none =>
    unfold foldedUnder
    rw [delimited]
    rfl
  | some separator =>
    have notEmpty : ¬ separator.isEmpty = true := by
      intro empty
      rw [String.isEmpty_iff.1 empty] at delimited
      exact filled delimited
    dsimp only
    rw [folded_under_eq starts delimited, if_neg notEmpty, trim_once starts once]
    cases beforeFirst separator.toList (dropPrefix key request.keyPrefix).toList with
    | none => rfl
    | some before =>
      simp only [Option.map_some, Option.some.injEq]
      rw [← String.toList_inj]
      simp

theorem repeat_free_folds_alike {C : Type} {keyOf : C → String} {candidates : List C}
    (filled : request.delimiter ≠ some "") (free : RepeatFree keyOf request candidates) :
    FoldsAlike keyOf request candidates := fun candidate member starts =>
  index_prefix_eq filled starts (free candidate member starts)

end Trim

section Items

variable {C O : Type} (source : IndexSource C O) (request : ListRequest)

def shownCandidate (candidate : C) : Shown String O :=
  foldOr request (source.key candidate) (source.live candidate).toList

def indexBehind (stock : List C) (marker : Option String) : List C :=
  candidates source.key stock request.keyPrefix marker false

def indexItems (stock : List C) (marker : Option String) : List (Item String O) :=
  collect "" ((indexBehind source request stock marker).map (shownCandidate source request))

end Items

section Page

variable {C O : Type} {source : IndexSource C O} {request : ListRequest} {stock : List C}
  {marker : Option String}

theorem shown_candidate_folded_iff {candidate : C}
    (starts : startsWith (source.key candidate) request.keyPrefix = true) (common : String) :
    shownCandidate source request candidate = .folded common ↔
      IsUnder request (source.key candidate) common :=
  fold_or_folded_iff starts _

theorem index_behind_starts {candidate : C} (member : candidate ∈ indexBehind source request stock marker) :
    startsWith (source.key candidate) request.keyPrefix = true :=
  (mem_candidates.1 member).2.2

theorem index_folds (sorted : stock.Pairwise fun one two => source.key one < source.key two) :
    Folds source.key (shownCandidate source request) (indexBehind source request stock marker) where
  sorted := sorted.filter _
  below := by
    intro candidate member common folded
    exact under_le ((shown_candidate_folded_iff (index_behind_starts member) common).1 folded)
  between := by
    intro candidate member common folded other isOther lower upper
    have under := (shown_candidate_folded_iff (index_behind_starts member) common).1 folded
    left
    exact (shown_candidate_folded_iff (index_behind_starts isOther) common).2
      (under_between under lower upper)

theorem index_unfolded (proper : request.Proper) :
    ∀ candidate ∈ indexBehind source request stock marker,
      shownCandidate source request candidate ≠ .folded "" := by
  intro candidate member folded
  have under := (shown_candidate_folded_iff (index_behind_starts member) "").1 folded
  exact under_not_empty proper.filled under rfl

theorem passed_over (key : String) :
    ((marker.any fun marker => key ≤ marker) || !startsWith key request.keyPrefix) =
      !(isBehind marker false key && startsWith key request.keyPrefix) := by
  unfold isBehind
  cases marker with
  | none => rfl
  | some marker =>
    rw [Option.any_some, Option.all_some, if_neg Bool.false_ne_true, Bool.not_and, Bool.not_not]

theorem index_behind_cons (candidate : C) (rest : List C) :
    indexBehind source request (candidate :: rest) marker =
      if (isBehind marker false (source.key candidate) &&
          startsWith (source.key candidate) request.keyPrefix) = true then
        candidate :: indexBehind source request rest marker
      else indexBehind source request rest marker := by
  unfold indexBehind candidates
  rw [filter_cons]

theorem take_filled {α : Type} {front more : List α} {item : α} {limit : Nat}
    (short : front.length < limit) (full : limit ≤ (front ++ [item]).length) :
    (front ++ item :: more).take limit = front ++ [item] := by
  rw [append_cons]
  apply take_left'
  rw [length_append, length_singleton] at full ⊢
  omega

/-- The loop keeps the first items of the candidates behind the marker. The set of the prefixes
that were seen holds, of those that still come, the last one only. -/
theorem visible_entries_eq {limit : Nat} (alike : FoldsAlike source.key request stock) :
    ∀ (visible : List (Item String O)) (seen : List String) (last : String), visible.length < limit →
      FoldsUp ((indexBehind source request stock marker).map (shownCandidate source request)) →
      (∀ q, Shown.folded q ∈ (indexBehind source request stock marker).map (shownCandidate source request) →
        (q ∈ seen ↔ q = last) ∧ last ≤ q) →
      visibleEntries source request marker limit visible seen stock =
        (visible ++ collect last ((indexBehind source request stock marker).map
          (shownCandidate source request))).take limit := by
  induction stock with
  | nil =>
    intro visible seen last short _ _
    change visible = (visible ++ []).take limit
    rw [append_nil, take_of_length_le short.le]
  | cons candidate rest ih =>
    obtain ⟨here, others⟩ := forall_mem_cons.1 alike
    intro visible seen last short up known
    rw [visibleEntries, passed_over]
    rw [index_behind_cons] at up known ⊢
    cases kept : isBehind marker false (source.key candidate) &&
        startsWith (source.key candidate) request.keyPrefix with
    | false =>
      rw [kept, if_neg Bool.false_ne_true] at up known
      exact ih others visible seen last short up known
    | true =>
      have folds := here (Bool.and_eq_true_iff.1 kept).2
      rw [kept, if_pos rfl, map_cons] at up known
      rw [Bool.not_true, if_neg Bool.false_ne_true, if_pos rfl, map_cons]
      obtain ⟨below, restUp⟩ := pairwise_cons.1 up
      cases found : indexPrefix request (source.key candidate) with
      | some common =>
        have shown : shownCandidate source request candidate = .folded common := by
          unfold shownCandidate foldOr
          rw [folds, found]
          rfl
        rw [shown] at known below ⊢
        obtain ⟨seenIff, above⟩ := known common mem_cons_self
        dsimp only
        rw [collect]
        by_cases same : common = last
        · rw [if_pos (seenIff.2 same), if_neg (by omega), if_pos same]
          apply ih others visible _ last short restUp
          intro q member
          obtain ⟨qIff, qAbove⟩ := known q (mem_cons_of_mem _ member)
          refine ⟨?_, qAbove⟩
          rw [mem_cons, qIff, same, or_self]
        · rw [if_neg fun isSeen => same (seenIff.1 isSeen), if_neg same]
          by_cases full : limit ≤ (visible ++ [Item.common common]).length
          · rw [if_pos full, take_filled short full]
          · rw [if_neg full, append_cons visible _ (collect common _)]
            apply ih others _ _ common (not_le.1 full) restUp
            intro q member
            have qLater := below _ member common q rfl rfl
            refine ⟨?_, qLater⟩
            rw [mem_cons, (known q (mem_cons_of_mem _ member)).1]
            constructor
            · rintro (isCommon | isLast)
              · exact isCommon
              · rw [isLast] at qLater
                exact absurd (le_antisymm qLater above) same
            · exact .inl
      | none =>
        have shown : shownCandidate source request candidate =
            .listed (source.live candidate).toList := by
          unfold shownCandidate foldOr
          rw [folds, found]
          rfl
        rw [shown] at known ⊢
        have restKnown : ∀ q, Shown.folded q ∈ (indexBehind source request rest marker).map
            (shownCandidate source request) → (q ∈ seen ↔ q = last) ∧ last ≤ q :=
          fun q member => known q (mem_cons_of_mem _ member)
        rw [collect]
        cases source.live candidate with
        | none => exact ih others visible seen last short restUp restKnown
        | some object =>
          dsimp only [Option.toList]
          rw [map_singleton, singleton_append]
          by_cases full : limit ≤ (visible ++ [Item.object object]).length
          · rw [if_pos full, take_filled short full]
          · rw [if_neg full, append_cons visible _ (collect last _)]
            exact ih others _ seen last (not_le.1 full) restUp restKnown

section

variable (proper : request.Proper)
  (sorted : stock.Pairwise fun one two => source.key one < source.key two)
  (alike : FoldsAlike source.key request stock)

include proper sorted alike

theorem index_page_eq :
    indexPage source request stock marker =
      { objects := objectsOf ((indexItems source request stock marker).take request.pageKeys)
        prefixes := commonsOf ((indexItems source request stock marker).take request.pageKeys)
        isTruncated := request.pageKeys < (indexItems source request stock marker).length
        nextMarker := if request.pageKeys < (indexItems source request stock marker).length then
            ((indexItems source request stock marker).take request.pageKeys).getLast?.map
              (entryMarker source)
          else none } := by
  obtain ⟨isKeys, positive, _, bounded⟩ := proper.page_keys
  have limit : asUsize (maxKeysPlusOne (normalizeMaxKeys request.maxKeys) true) =
      request.pageKeys + 1 := by
    rw [proper.scan_limit]
    unfold asUsize
    omega
  have visible : visibleEntries source request marker (request.pageKeys + 1) [] [] stock =
      (indexItems source request stock marker).take (request.pageKeys + 1) := by
    apply visible_entries_eq alike [] [] "" (Nat.succ_pos _) (folds_up (index_folds sorted))
    intro q member
    obtain ⟨candidate, isCandidate, folded⟩ := mem_map.1 member
    have filled : q ≠ "" := fun empty => index_unfolded proper candidate isCandidate (empty ▸ folded)
    refine ⟨iff_of_false not_mem_nil filled, ?_⟩
    rw [String.le_iff_toList_le]
    exact not_lt.1 (not_lt_nil _)
  have truncated : request.pageKeys < ((indexItems source request stock marker).take
      (request.pageKeys + 1)).length ↔
        request.pageKeys < (indexItems source request stock marker).length := by
    rw [length_take]
    omega
  have keys : asUsize (normalizeMaxKeys request.maxKeys) = request.pageKeys := rfl
  unfold indexPage
  dsimp only
  rw [limit, visible, keys, if_neg (by omega)]
  simp only [truncated]
  by_cases longer : request.pageKeys < (indexItems source request stock marker).length
  · simp [longer, take_take]
  · have short := not_lt.1 longer
    simp [longer, take_of_length_le short, take_of_length_le (Nat.le_succ_of_le short)]

theorem follow_index_page :
    followPage (indexPage source request stock) marker =
      if request.pageKeys < (indexItems source request stock marker).length then
        ((indexItems source request stock marker).take request.pageKeys).getLast?.map fun item =>
          some (entryMarker source item)
      else none := by
  unfold followPage
  rw [index_page_eq proper sorted alike]
  by_cases longer : request.pageKeys < (indexItems source request stock marker).length
  · simp only [longer, decide_true, if_true, Option.map_map]
    rfl
  · simp only [longer, decide_false, Bool.false_eq_true, if_false]

end

end Page

section Next

variable {C O : Type} {source : IndexSource C O} {request : ListRequest} {stock : List C}
  {marker : Option String}

/-- No candidate behind the common prefix is under it. -/
def NothingBehind (source : IndexSource C O) (request : ListRequest) (stock : List C)
    (common : String) : Prop :=
  ∀ candidate ∈ stock, startsWith (source.key candidate) request.keyPrefix = true →
    common < source.key candidate → ¬ IsUnder request (source.key candidate) common

theorem index_advances {candidate : C} (member : candidate ∈ indexBehind source request stock marker) :
    ∀ old, marker = some old → old < source.key candidate := by
  intro old isMarker
  have later := (mem_candidates.1 member).2.1
  rw [isMarker] at later
  exact is_behind_some.1 later

theorem index_behind_split (sorted : stock.Pairwise fun one two => source.key one < source.key two)
    {front back : List C} {candidate : C}
    (split : indexBehind source request stock marker = front ++ candidate :: back) :
    indexBehind source request stock (some (source.key candidate)) = back := by
  have member : candidate ∈ indexBehind source request stock marker := by
    rw [split]
    simp
  have advances := index_advances member
  have ordered : (indexBehind source request stock marker).Pairwise fun one two =>
      source.key one < source.key two := sorted.filter _
  rw [split] at ordered
  obtain ⟨_, tailSorted, frontBelow⟩ := pairwise_append.1 ordered
  rw [append_cons] at split
  apply candidates_cut split
  · intro other isOther
    rcases mem_append.1 isOther with inFront | isCandidate
    · exact (frontBelow other inFront candidate mem_cons_self).le
    · rw [mem_singleton.1 isCandidate]
  · exact (pairwise_cons.1 tailSorted).1
  · exact fun old isMarker => (advances old isMarker).le

/-- A page that is not the last one ends with an item; the next page goes on behind it unless the
item is a common prefix with candidates behind it. -/
theorem index_goes_on (proper : request.Proper)
    (sorted : stock.Pairwise fun one two => source.key one < source.key two)
    (longer : request.pageKeys < (indexItems source request stock marker).length) :
    ∃ item, ((indexItems source request stock marker).take request.pageKeys).getLast? = some item ∧
      ((∀ common, item = .common common → NothingBehind source request stock common) →
        indexItems source request stock (some (entryMarker source item)) =
          (indexItems source request stock marker).drop request.pageKeys) := by
  have folds := @index_folds _ _ _ request _ marker sorted
  have unfolded := @index_unfolded _ _ source _ stock marker proper
  obtain ⟨item, front, candidate, back, isLast, split, shows⟩ := collect_stop proper.page_keys.2.1 longer
  refine ⟨item, isLast, fun closed => ?_⟩
  have member : candidate ∈ indexBehind source request stock marker := by
    rw [split]
    simp
  have starts := index_behind_starts member
  have remains := index_behind_split sorted split
  have whole := take_append_drop request.pageKeys (indexItems source request stock marker)
  apply @append_cancel_left _ ((indexItems source request stock marker).take request.pageKeys)
  rw [whole]
  rcases shows with ⟨object, before, after, rfl, listed, isKept⟩ | ⟨common, rfl, folded, isKept, fresh⟩
  · have isLive : source.live candidate = some object ∧ before = [] ∧ after = [] := by
      unfold shownCandidate foldOr at listed
      split at listed
      · cases live : source.live candidate with
        | none =>
          rw [live] at listed
          simp at listed
        | some found =>
          rw [live] at listed
          cases before with
          | nil =>
            cases listed
            exact ⟨rfl, rfl, rfl⟩
          | cons first others =>
            simp at listed
      · simp at listed
      · cases listed
    obtain ⟨live, rfl, rfl⟩ := isLive
    have isNext : entryMarker source (.object object) = source.key candidate :=
      source.named candidate object live
    rw [split] at folds unfolded
    have cut := collect_at_object folds unfolded listed
    rw [← split] at cut
    unfold indexItems
    rw [isNext, remains, isKept, cut]
    simp
  · have under := (shown_candidate_folded_iff starts common).1 folded
    have alone := closed common rfl
    have named : source.key candidate = common := by
      apply le_antisymm
      · exact not_lt.1 fun later => alone candidate (mem_candidates.1 member).1 starts later under
      · exact under_le under
    have isBack : ∀ other ∈ back, other ∈ indexBehind source request stock marker ∧
        common < source.key other := by
      intro other isOther
      rw [split] at folds
      obtain ⟨_, tailSorted, _⟩ := pairwise_append.1 folds.sorted
      refine ⟨?_, ?_⟩
      · rw [split]
        exact mem_append_right _ (mem_cons_of_mem _ isOther)
      · rw [← named]
        exact (pairwise_cons.1 tailSorted).1 other isOther
    have cut := collect_at_common (fun other isOther => unfolded other (isBack other isOther).1) folded fresh
      fun other isOther otherFolded => by
        obtain ⟨isBehind, later⟩ := isBack other isOther
        have otherStarts := index_behind_starts isBehind
        exact alone other (mem_candidates.1 isBehind).1 otherStarts later
          ((shown_candidate_folded_iff otherStarts common).1 otherFolded)
    rw [← split] at cut
    rw [named] at remains
    unfold indexItems
    rw [entryMarker, remains, isKept, cut]

theorem index_repeats (proper : request.Proper)
    (sorted : stock.Pairwise fun one two => source.key one < source.key two) {common : String}
    (behind : ¬ NothingBehind source request stock common) :
    ∃ rest, indexItems source request stock (some common) = .common common :: rest := by
  unfold NothingBehind at behind
  push Not at behind
  obtain ⟨candidate, isCandidate, starts, later, under⟩ := behind
  have member : candidate ∈ indexBehind source request stock (some common) :=
    mem_candidates.2 ⟨isCandidate, is_behind_some.2 later, starts⟩
  have folds := @index_folds _ _ _ request _ (some common) sorted
  cases isBehind : indexBehind source request stock (some common) with
  | nil =>
    rw [isBehind] at member
    cases member
  | cons first others =>
    have isFirst : first ∈ indexBehind source request stock (some common) := by
      rw [isBehind]
      exact mem_cons_self
    have upper : source.key first ≤ source.key candidate := by
      have ordered := folds.sorted
      rw [isBehind] at member ordered
      rcases mem_cons.1 member with rfl | inOthers
      · exact le_rfl
      · exact ((pairwise_cons.1 ordered).1 candidate inOthers).le
    have firstUnder := under_between under (index_advances isFirst common rfl).le upper
    have folded := (shown_candidate_folded_iff (index_behind_starts isFirst) common).2 firstUnder
    unfold indexItems
    rw [isBehind, map_cons, folded, collect, if_neg (under_not_empty proper.filled under)]
    exact ⟨_, rfl⟩

end Next

section Listing

variable {C O : Type} {source : IndexSource C O} {request : ListRequest} {stock : List C}
  {marker : Option String}

/-- The objects of the candidates under the prefix that are not folded. -/
def liveObjects (source : IndexSource C O) (request : ListRequest) (stock : List C) : List O :=
  (stock.filter fun candidate => startsWith (source.key candidate) request.keyPrefix &&
    !isDelimited request (source.key candidate)).flatMap fun candidate => (source.live candidate).toList

/-- The pages end; together they name every object, and every common prefix once. -/
def ListedOnce (page : Option String → IndexPage O) (source : IndexSource C O) (request : ListRequest)
    (stock : List C) : Prop :=
  ∃ visited, Run (followPage page) none visited ∧
    (visited.flatMap fun marker => (page marker).objects) = liveObjects source request stock ∧
    (visited.flatMap fun marker => (page marker).prefixes).Nodup ∧
    ∀ common, common ∈ (visited.flatMap fun marker => (page marker).prefixes) ↔
      ∃ candidate ∈ stock, startsWith (source.key candidate) request.keyPrefix = true ∧
        IsUnder request (source.key candidate) common

/-- Where a page is full and items remain, the last item is an object or a common prefix with no
candidate behind it. -/
def CleanBoundaries (source : IndexSource C O) (request : ListRequest) (stock : List C) : Prop :=
  ∀ pages common, 0 < pages →
    pages * request.pageKeys < (indexItems source request stock none).length →
    (indexItems source request stock none)[pages * request.pageKeys - 1]? = some (.common common) →
    NothingBehind source request stock common

theorem index_behind_start :
    indexBehind source request stock none =
      stock.filter fun candidate => startsWith (source.key candidate) request.keyPrefix := rfl

theorem live_objects_eq :
    objectsOf (indexItems source request stock none) = liveObjects source request stock := by
  have each : ∀ candidate ∈ indexBehind source request stock none,
      (shownCandidate source request candidate).items =
        if !isDelimited request (source.key candidate) then (source.live candidate).toList else [] := by
    intro candidate member
    rw [shownCandidate, fold_or_items (index_behind_starts member)]
    cases isDelimited request (source.key candidate) <;> rfl
  rw [indexItems, objects_collect, flatMap_map, flatMap_congr each,
    flat_map_filter fun candidate : C => !isDelimited request (source.key candidate), index_behind_start,
    filter_filter]
  congr 2
  funext candidate
  exact Bool.and_comm _ _

theorem index_prefixes_once (proper : request.Proper)
    (sorted : stock.Pairwise fun one two => source.key one < source.key two) :
    (commonsOf (indexItems source request stock none)).Nodup ∧
      ∀ common, common ∈ commonsOf (indexItems source request stock none) ↔
        ∃ candidate ∈ stock, startsWith (source.key candidate) request.keyPrefix = true ∧
          IsUnder request (source.key candidate) common := by
  have folds := @index_folds _ _ _ request _ none sorted
  refine ⟨(commons_increasing (folds_up folds) "").imp fun less => less.ne, ?_⟩
  intro common
  constructor
  · intro member
    obtain ⟨candidate, isBehind, folded⟩ := mem_map.1 (mem_of_mem_commons member)
    have starts := index_behind_starts isBehind
    exact ⟨candidate, (mem_candidates.1 isBehind).1, starts,
      (shown_candidate_folded_iff starts common).1 folded⟩
  · rintro ⟨candidate, isCandidate, starts, under⟩
    have isBehind : candidate ∈ indexBehind source request stock none :=
      mem_filter.2 ⟨isCandidate, starts⟩
    have folded := (shown_candidate_folded_iff starts common).2 under
    rcases @mem_commons_of_mem _ _ _ _ common "" (mem_map.2 ⟨candidate, isBehind, folded⟩) with
      empty | shown
    · exact absurd empty (under_not_empty proper.filled under)
    · exact shown

theorem boundary_item {items rest : List (Item String O)} {keys pages : Nat} {item : Item String O}
    (positive : 0 < keys) (isRest : rest = items.drop (pages * keys)) (longer : keys < rest.length)
    (isLast : (rest.take keys).getLast? = some item) :
    (pages + 1) * keys < items.length ∧ items[(pages + 1) * keys - 1]? = some item := by
  rw [isRest, length_drop] at longer
  have pagesKeys : (pages + 1) * keys = pages * keys + keys := Nat.succ_mul _ _
  refine ⟨by omega, ?_⟩
  rw [List.getLast?_eq_getElem?, length_take_of_le (by rw [isRest, length_drop]; omega),
    getElem?_take_of_lt (by omega), isRest, getElem?_drop] at isLast
  rw [← isLast, pagesKeys]
  congr 1
  omega

section

variable (proper : request.Proper)
  (sorted : stock.Pairwise fun one two => source.key one < source.key two)
  (alike : FoldsAlike source.key request stock)

include proper sorted alike

theorem clean_reached (clean : CleanBoundaries source request stock)
    (reached : Reaches (followPage (indexPage source request stock)) none marker) :
    ∃ pages, indexItems source request stock marker =
      (indexItems source request stock none).drop (pages * request.pageKeys) := by
  induction reached with
  | refl => exact ⟨0, by simp⟩
  | @tail middle next _ goes ih =>
    obtain ⟨pages, isRest⟩ := ih
    rw [follow_index_page proper sorted alike] at goes
    split at goes
    · rename_i longer
      obtain ⟨item, isLast, goesOn⟩ := index_goes_on proper sorted longer
      obtain ⟨before, isBoundary⟩ := boundary_item proper.page_keys.2.1 isRest longer isLast
      rw [isLast, Option.map_some] at goes
      cases goes
      refine ⟨pages + 1, ?_⟩
      rw [goesOn, isRest, drop_drop, Nat.succ_mul]
      rintro common rfl
      exact clean (pages + 1) common (Nat.succ_pos _) before isBoundary
    · cases goes

theorem index_accounts (clean : CleanBoundaries source request stock)
    (reached : Reaches (followPage (indexPage source request stock)) none marker) :
    indexItems source request stock marker =
      (indexItems source request stock marker).take request.pageKeys ++
        ((followPage (indexPage source request stock) marker).map
          (indexItems source request stock)).getD [] := by
  obtain ⟨pages, isRest⟩ := clean_reached proper sorted alike clean reached
  rw [follow_index_page proper sorted alike]
  split
  · rename_i longer
    obtain ⟨item, isLast, goesOn⟩ := index_goes_on proper sorted longer
    obtain ⟨before, isBoundary⟩ := boundary_item proper.page_keys.2.1 isRest longer isLast
    rw [isLast, Option.map_some, Option.map_some, Option.getD_some, goesOn, take_append_drop]
    rintro common rfl
    exact clean (pages + 1) common (Nat.succ_pos _) before isBoundary
  · rename_i short
    rw [take_of_length_le (not_lt.1 short)]
    simp

theorem clean_listed_once (clean : CleanBoundaries source request stock) :
    ListedOnce (indexPage source request stock) source request stock := by
  have ends : ∃ visited, Run (followPage (indexPage source request stock)) none visited := by
    apply run_ends fun marker => (indexItems source request stock marker).length
    intro marker next reached goes
    have account := congrArg List.length (index_accounts proper sorted alike clean reached)
    rw [goes, Option.map_some, Option.getD_some, length_append, length_take] at account
    rw [follow_index_page proper sorted alike] at goes
    split at goes
    · have positive := proper.page_keys.2.1
      omega
    · cases goes
  obtain ⟨visited, run⟩ := ends
  have total : (visited.flatMap fun marker =>
      (indexItems source request stock marker).take request.pageKeys) =
        indexItems source request stock none :=
    run_total run fun marker member =>
      index_accounts proper sorted alike clean (visited_reached run marker member)
  have objects : (visited.flatMap fun marker => (indexPage source request stock marker).objects) =
      objectsOf (indexItems source request stock none) := by
    rw [← total, objectsOf, filterMap_flatMap]
    refine flatMap_congr fun marker _ => ?_
    rw [index_page_eq proper sorted alike]
    rfl
  have prefixes : (visited.flatMap fun marker => (indexPage source request stock marker).prefixes) =
      commonsOf (indexItems source request stock none) := by
    rw [← total, commonsOf, filterMap_flatMap]
    refine flatMap_congr fun marker _ => ?_
    rw [index_page_eq proper sorted alike]
    rfl
  refine ⟨visited, run, ?_⟩
  rw [objects, prefixes, live_objects_eq]
  exact ⟨rfl, index_prefixes_once proper sorted⟩

/-- Where no prefix is named twice, nothing is behind the common prefix that a page ends with. -/
theorem once_nothing_behind {visited : List (Option String)}
    (run : Run (followPage (indexPage source request stock)) none visited)
    (once : (visited.flatMap fun marker => (indexPage source request stock marker).prefixes).Nodup)
    (reached : Reaches (followPage (indexPage source request stock)) none marker)
    (longer : request.pageKeys < (indexItems source request stock marker).length) {common : String}
    (isLast : ((indexItems source request stock marker).take request.pageKeys).getLast? =
      some (.common common)) : NothingBehind source request stock common := by
  by_contra behind
  obtain ⟨others, again⟩ := index_repeats proper sorted behind
  have goes : followPage (indexPage source request stock) marker = some (some common) := by
    rw [follow_index_page proper sorted alike, if_pos longer, isLast]
    rfl
  have here : common ∈ (indexPage source request stock marker).prefixes := by
    rw [index_page_eq proper sorted alike]
    exact mem_filterMap.2 ⟨_, mem_of_getLast? isLast, rfl⟩
  have there : common ∈ (indexPage source request stock (some common)).prefixes := by
    obtain ⟨keys, isKeys⟩ : ∃ keys, request.pageKeys = keys + 1 :=
      Nat.exists_eq_succ_of_ne_zero (Nat.one_le_iff_ne_zero.1 proper.page_keys.2.1)
    rw [index_page_eq proper sorted alike, again, isKeys, take_succ_cons]
    exact mem_cons_self
  obtain ⟨before, after, rfl, further⟩ := run_suffix run reached
  cases further with
  | last ends =>
    rw [goes] at ends
    cases ends
  | more isNext rest =>
    rw [goes] at isNext
    cases isNext
    have inRest : common ∈ List.flatMap
        (fun marker => (indexPage source request stock marker).prefixes) _ :=
      mem_flatMap.2 ⟨some common, start_visited rest, there⟩
    rw [flatMap_append, flatMap_cons] at once
    obtain ⟨_, onceAfter, _⟩ := nodup_append.1 once
    obtain ⟨_, _, apart⟩ := nodup_append.1 onceAfter
    exact apart common here common inRest rfl

theorem listed_once_clean
    (listed : ListedOnce (indexPage source request stock) source request stock) :
    CleanBoundaries source request stock := by
  obtain ⟨visited, run, _, once, _⟩ := listed
  have positive := proper.page_keys.2.1
  have walked : ∀ pages, pages * request.pageKeys < (indexItems source request stock none).length →
      ∃ marker, Reaches (followPage (indexPage source request stock)) none marker ∧
        indexItems source request stock marker =
          (indexItems source request stock none).drop (pages * request.pageKeys) := by
    intro pages
    induction pages with
    | zero => exact fun _ => ⟨none, .refl, by simp⟩
    | succ pages ih =>
      intro before
      rw [Nat.succ_mul] at before
      obtain ⟨marker, reached, isRest⟩ := ih (by omega)
      have longer : request.pageKeys < (indexItems source request stock marker).length := by
        rw [isRest, length_drop]
        omega
      obtain ⟨item, isLast, goesOn⟩ := index_goes_on proper sorted longer
      have goes : followPage (indexPage source request stock) marker =
          some (some (entryMarker source item)) := by
        rw [follow_index_page proper sorted alike, if_pos longer, isLast]
        rfl
      refine ⟨_, reaches_step reached goes, ?_⟩
      rw [goesOn, isRest, drop_drop, Nat.succ_mul]
      rintro common rfl
      exact once_nothing_behind proper sorted alike run once reached longer isLast
  intro pages common notFirst before isBoundary
  obtain ⟨earlier, rfl⟩ : ∃ earlier, pages = earlier + 1 :=
    Nat.exists_eq_succ_of_ne_zero notFirst.ne'
  have pagesKeys : (earlier + 1) * request.pageKeys = earlier * request.pageKeys + request.pageKeys :=
    Nat.succ_mul _ _
  obtain ⟨marker, reached, isRest⟩ := walked earlier (by omega)
  have longer : request.pageKeys < (indexItems source request stock marker).length := by
    rw [isRest, length_drop]
    omega
  obtain ⟨item, isLast, _⟩ := index_goes_on proper sorted longer
  have isItem := (boundary_item positive isRest longer isLast).2
  rw [isBoundary] at isItem
  cases isItem
  exact once_nothing_behind proper sorted alike run once reached longer isLast

end

/-- Pages from verified keys or from a snapshot name everything once if and only if their
boundaries are clean. The candidates fold alike however often the prefix is trimmed from their
keys. -/
theorem index_listed_once_iff {O : Type} {name : O → String} {liveVerify : String → Option O}
    (named : ∀ key object, liveVerify key = some object → name object = key)
    {candidateKeys : List String} {candidateObjects : List PersistentListMetadataObject}
    (proper : request.Proper) (keysSorted : candidateKeys.Pairwise (· < ·))
    (keysAlike : FoldsAlike id request candidateKeys)
    (objectsSorted : candidateObjects.Pairwise fun one two => one.name < two.name)
    (objectsAlike : FoldsAlike PersistentListMetadataObject.name request candidateObjects) :
    (ListedOnce (listObjectsFromVerifiedIndexCandidates name liveVerify named request candidateKeys)
        (verifiedIndex name liveVerify named) request candidateKeys ↔
      CleanBoundaries (verifiedIndex name liveVerify named) request candidateKeys) ∧
    (ListedOnce (listObjectsFromMetadataSnapshotCandidates request candidateObjects) metadataSnapshot
        request candidateObjects ↔
      CleanBoundaries metadataSnapshot request candidateObjects) :=
  ⟨⟨listed_once_clean proper keysSorted keysAlike, clean_listed_once proper keysSorted keysAlike⟩,
    ⟨listed_once_clean proper objectsSorted objectsAlike,
      clean_listed_once proper objectsSorted objectsAlike⟩⟩

end Listing

def indexRequest (keyPrefix : String) (maxKeys : Int) : ListRequest where
  keyPrefix := keyPrefix
  delimiter := some "/"
  maxKeys := maxKeys
  versioned := fun _ => false

def verifiedExcept (missing key : String) : Option String := if key = missing then none else some key

theorem verified_except_named (missing key object : String)
    (verified : verifiedExcept missing key = some object) : id object = key := by
  unfold verifiedExcept at verified
  split at verified
  · cases verified
  · cases verified
    rfl

theorem some_named (key object : String) (verified : some key = some object) : id object = key :=
  (Option.some.inj verified).symm

def snapshotObject (name : String) : PersistentListMetadataObject := ⟨name, 1, none, none, none⟩

theorem two_pages_boundary {C O : Type} {source : IndexSource C O} {request : ListRequest}
    {stock : List C} {object : O} (keys : request.pageKeys = 2)
    (items : (indexItems source request stock none).length = 3)
    (second : (indexItems source request stock none)[1]? = some (.object object)) :
    CleanBoundaries source request stock := by
  intro pages common notFirst before isBoundary
  rw [keys, items] at before
  obtain rfl : pages = 1 := by omega
  rw [keys, second] at isBoundary
  cases isBoundary

theorem miss_and_prefix_listed_once :
    ListedOnce (listObjectsFromVerifiedIndexCandidates id (verifiedExcept "p/c") (verified_except_named "p/c")
        (indexRequest "p/" 2) ["p/a/1", "p/b", "p/c", "p/d"])
      (verifiedIndex id (verifiedExcept "p/c") (verified_except_named "p/c")) (indexRequest "p/" 2)
      ["p/a/1", "p/b", "p/c", "p/d"] ∧
    ListedOnce (listObjectsFromMetadataSnapshotCandidates (indexRequest "p/" 2)
        [snapshotObject "p/a/1", snapshotObject "p/b", snapshotObject "p/d"])
      metadataSnapshot (indexRequest "p/" 2)
      [snapshotObject "p/a/1", snapshotObject "p/b", snapshotObject "p/d"] := by
  have both := @index_listed_once_iff (indexRequest "p/" 2) _ id _ (verified_except_named "p/c")
    ["p/a/1", "p/b", "p/c", "p/d"] [snapshotObject "p/a/1", snapshotObject "p/b", snapshotObject "p/d"]
    ⟨by decide, by decide⟩ (by decide) (repeat_free_folds_alike (by decide) (by unfold RepeatFree; decide))
    (by decide) (repeat_free_folds_alike (by decide) (by unfold RepeatFree; decide))
  refine ⟨both.1.2 ?_, both.2.2 ?_⟩
  · exact @two_pages_boundary _ _ _ _ _ "p/b" (by decide) (by decide) (by decide)
  · exact @two_pages_boundary _ _ _ _ _ (snapshotObject "p/b") (by decide) (by decide) (by decide)

/-- A page that ends with a common prefix leads back to it, and a key that repeats the prefix is
not folded. -/
theorem index_prefix_loops_or_is_missed :
    (¬ ListedOnce (listObjectsFromVerifiedIndexCandidates id some some_named (indexRequest "" 1)
        ["a/1", "a/2", "b"]) (verifiedIndex id some some_named) (indexRequest "" 1) ["a/1", "a/2", "b"]) ∧
    ¬ ListedOnce (listObjectsFromVerifiedIndexCandidates id some some_named (indexRequest "a/" 1)
        ["a/a/b"]) (verifiedIndex id some some_named) (indexRequest "a/" 1) ["a/a/b"] := by
  refine ⟨?_, ?_⟩
  · rintro ⟨visited, run, _⟩
    have first : followPage (listObjectsFromVerifiedIndexCandidates id some some_named (indexRequest "" 1)
        ["a/1", "a/2", "b"]) none = some (some "a/") := by decide
    have loop : followPage (listObjectsFromVerifiedIndexCandidates id some some_named (indexRequest "" 1)
        ["a/1", "a/2", "b"]) (some "a/") = some (some "a/") := by decide
    cases run with
    | last ends =>
      cases ends
    | more goes further =>
      cases goes
      exact no_run_of_loop loop _ further
  · rintro ⟨visited, run, objects, _⟩
    have only : followPage (listObjectsFromVerifiedIndexCandidates id some some_named (indexRequest "a/" 1)
        ["a/a/b"]) none = none := by decide
    cases run with
    | last ends => exact absurd objects (by decide)
    | more goes further =>
      cases goes

end Rustfs.Ecstore
