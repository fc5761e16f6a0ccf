import Rustfs.Utils.StrSearch
import Mathlib.Algebra.Group.Nat.Even

/-!
# Continuation markers

The tag that a listing appends to the last key of a page, and how the next request takes it off
again: `ListContinuationV2` and `ListPathOptions::parse_marker` of
`ecstore/src/store/list_objects.rs`. The marker of a request is parsed by `list_objects_generic` and
once more by `list_path`. Only the options that the parse reads are kept; the id of a new cursor is
a parameter.
-/

namespace Rustfs.Ecstore.ListMarker

open List Option Utils

abbrev Text := List Char

def letters (text : String) : Text := text.toList

def listCacheMarkerPrefix : Text := letters "[rustfs_cache:"

def markerTagVersion : Text := letters "v2"

def legacyMarkerTagVersions : List Text := [letters "v1", markerTagVersion]

def listCursorGenerationLive : Text := letters "live"

inductive ListSourceMode
  | walker
  | indexKeyOnly
  | indexVerifiedPage
  | indexMetadataFast
  deriving DecidableEq

def ListSourceMode.cursorValue : ListSourceMode → Text
  | .walker => letters "walker"
  | .indexKeyOnly => letters "index_key_only"
  | .indexVerifiedPage => letters "index_verified_page"
  | .indexMetadataFast => letters "index_metadata_fast"

def ListSourceMode.fromCursorValue (source : Text) : Option ListSourceMode :=
  if source = ListSourceMode.walker.cursorValue then some .walker
  else if source = ListSourceMode.indexKeyOnly.cursorValue then some .indexKeyOnly
  else if source = ListSourceMode.indexVerifiedPage.cursorValue then some .indexVerifiedPage
  else if source = ListSourceMode.indexMetadataFast.cursorValue then some .indexMetadataFast
  else none

structure ListContinuationV2 where
  version : Text
  id : Option Text
  poolIdx : Option Nat
  setIdx : Option Nat
  source : Option ListSourceMode
  generation : Option Text
  deriving DecidableEq

def field (name : Text) : Option Text → Text
  | none => []
  | some value => name ++ value

def ListContinuationV2.encodeMarker (continuation : ListContinuationV2) (marker : Text) : Text :=
  marker ++ listCacheMarkerPrefix ++ continuation.version ++
    (match continuation.id with
      | some id => letters ",id:" ++ id
      | none => letters ",return:") ++
    field (letters ",p:") (continuation.poolIdx.map (Nat.toDigits 10)) ++
    field (letters ",s:") (continuation.setIdx.map (Nat.toDigits 10)) ++
    field (letters ",src:") (continuation.source.map ListSourceMode.cursorValue) ++
    field (letters ",gen:") continuation.generation ++ [']']

/-- `str::parse::<usize>`. -/
def parseUsize (text : Text) : Option Nat :=
  let digits := match text with
    | '+' :: rest => rest
    | rest => rest
  if digits = [] || !digits.all Char.isDigit then none
  else
    let value := digits.foldl (fun value digit => value * 10 + (digit.toNat - '0'.toNat)) 0
    if value < 2 ^ 64 then some value else none

/-- `str::split_once` with a character. -/
def splitOnce (separator : Char) (text : Text) : Option (Text × Text) :=
  match text.dropWhile (· ≠ separator) with
  | [] => none
  | _ :: value => some (text.takeWhile (· ≠ separator), value)

structure Parsed where
  continuation : ListContinuationV2
  hasListCache : Bool
  shouldCreate : Bool
  deriving DecidableEq

/-- One field of a tag. The id that is drawn where a field asks for a fresh one is `newId`. -/
def parseField (newId : Text) (parsed : Parsed) (tag : Text) : Option Parsed :=
  match splitOnce ':' tag with
  | none => some parsed
  | some (key, value) =>
    let current := parsed.continuation
    if key = letters "rustfs_cache" then
      if value = letters "v1" then
        some { parsed with continuation := { current with version := letters "v1" }
                           hasListCache := true }
      else if value = markerTagVersion then
        some { parsed with continuation := { current with version := markerTagVersion }
                           hasListCache := true }
      else none
    else if key = letters "id" then
      some { parsed with continuation := { current with id := some value } }
    else if key = letters "return" then
      some { parsed with continuation := { current with id := some newId }, shouldCreate := true }
    else if key = letters "p" then
      match parseUsize value with
      | some res => some { parsed with continuation := { current with poolIdx := some res } }
      | none => some { parsed with continuation := { current with id := some newId }
                                   shouldCreate := true }
    else if key = letters "s" then
      match parseUsize value with
      | some res => some { parsed with continuation := { current with setIdx := some res } }
      | none => some { parsed with continuation := { current with id := some newId }
                                   shouldCreate := true }
    else if key = letters "src" then
      (ListSourceMode.fromCursorValue value).map fun mode =>
        { parsed with continuation := { current with source := some mode } }
    else if key = letters "gen" then
      if value = [] then none
      else some { parsed with continuation := { current with generation := some value } }
    else some parsed

def ListContinuationV2.parse (newId markerTag : Text) : Option (ListContinuationV2 × Bool) := do
  let parsed ← (markerTag.splitOn ',').foldlM (parseField newId)
    ⟨⟨markerTagVersion, none, none, none, none, none⟩, false, false⟩
  if parsed.hasListCache && legacyMarkerTagVersions.contains parsed.continuation.version then
    some (parsed.continuation, parsed.shouldCreate)
  else none

def appendListCacheIdToMarker (marker : Text) : Option Text → Text
  | none => marker
  | some id =>
    ListContinuationV2.encodeMarker
      ⟨markerTagVersion, some id, none, none, some .walker, some listCursorGenerationLive⟩ marker

/-- The options that the marker is parsed into, and those that `list_path` looks at before. -/
structure ListPathOptions where
  bucket : Text
  keyPrefix : Text
  marker : Option Text
  limit : Int
  separator : Option Text
  recursive : Bool
  includeDirectories : Bool
  id : Option Text
  poolIdx : Option Nat
  setIdx : Option Nat
  cursorSource : Option ListSourceMode
  cursorGeneration : Option Text
  create : Bool
  deriving DecidableEq

def cutTag (marker : Text) : Option (Text × Text) :=
  match splitLast listCacheMarkerPrefix marker with
  | none => none
  | some (front, tail) =>
    match splitLast [']'] tail with
    | none => none
    | some (inner, _) => some (front, inner.drop 1)

def ListPathOptions.parseMarker (newId : Text) (options : ListPathOptions) : ListPathOptions :=
  match options.marker.bind cutTag with
  | none => options
  | some (front, tagBody) =>
    match ListContinuationV2.parse newId tagBody with
    | none => options
    | some (continuation, shouldCreate) =>
      { options with
        marker := some front
        id := continuation.id
        poolIdx := continuation.poolIdx
        setIdx := continuation.setIdx
        cursorSource := continuation.source
        cursorGeneration := continuation.generation
        create := shouldCreate || options.create }

inductive ListError
  | badArguments
  | unexpected
  deriving DecidableEq

/-- `list_path` up to its own parse of the marker. Nothing behind it changes the marker.
Whether bucket and prefix are valid names is `validArgs`. -/
def listPathOptions (validArgs : Text → Text → Bool) (newId : Text) (options : ListPathOptions) :
    Except ListError ListPathOptions :=
  if !validArgs options.bucket options.keyPrefix then .error .badArguments
  else
    let options := { options with
      marker := options.marker.filter fun marker => decide (options.keyPrefix ≤ marker) }
    if options.marker.any fun marker =>
        !options.keyPrefix.isEmpty && !options.keyPrefix.isPrefixOf marker then
      .error .unexpected
    else if options.limit = 0 then .error .unexpected
    else if ['/'].isPrefixOf options.keyPrefix then .error .unexpected
    else
      let slashSeparator : Option Text := some ['/']
      let options := { options with
        includeDirectories := decide (options.separator = slashSeparator) }
      let options :=
        if (options.separator = slashSeparator ∨ options.separator = none) ∧ !options.recursive then
          { options with
            recursive := decide (options.separator ≠ slashSeparator)
            separator := slashSeparator }
        else { options with recursive := true }
      .ok (options.parseMarker newId)

/-- The options in force for a request whose marker is the one a page has returned for a key:
`list_objects_generic` parses the marker, then `list_path` does. -/
def resume (validArgs : Text → Text → Bool) (firstId nextId : Text) (request : ListPathOptions)
    (key id : Text) : Except ListError ListPathOptions :=
  listPathOptions validArgs nextId
    (({ request with marker := some (appendListCacheIdToMarker key (some id)) } :
      ListPathOptions).parseMarker firstId)

/-- A field that a parser does not stop at. -/
def ReadableField (tag : Text) : Prop :=
  ∀ key value, splitOnce ':' tag = some (key, value) →
    (key = letters "rustfs_cache" → value ∈ legacyMarkerTagVersions) ∧
    (key = letters "src" → ∃ mode : ListSourceMode, value = mode.cursorValue) ∧
    (key = letters "gen" → value ≠ [])

/-- The last tag opening of a text is followed by a closing bracket, and every field up to the
last one is readable. -/
def CarriesTag (text : Text) : Prop :=
  ∃ front body rest, text = front ++ '[' :: (body ++ ']' :: rest) ∧
    letters "rustfs_cache:" <+: body ∧ ']' ∉ rest ∧
    ¬ listCacheMarkerPrefix <:+: body ++ ']' :: rest ∧
    ∀ tag ∈ body.splitOn ',', ReadableField tag

theorem from_cursor_value_some (source : Text) :
    (∃ mode, ListSourceMode.fromCursorValue source = some mode) ↔
      ∃ mode : ListSourceMode, source = mode.cursorValue := by
  constructor
  · rintro ⟨mode, isMode⟩
    unfold ListSourceMode.fromCursorValue at isMode
    split at isMode
    · exact ⟨_, ‹_›⟩
    split at isMode
    · exact ⟨_, ‹_›⟩
    split at isMode
    · exact ⟨_, ‹_›⟩
    split at isMode
    · exact ⟨_, ‹_›⟩
    · cases isMode
  · rintro ⟨mode, rfl⟩
    cases mode with
    | walker => exact ⟨.walker, by decide⟩
    | indexKeyOnly => exact ⟨.indexKeyOnly, by decide⟩
    | indexVerifiedPage => exact ⟨.indexVerifiedPage, by decide⟩
    | indexMetadataFast => exact ⟨.indexMetadataFast, by decide⟩

theorem parse_field_readable (newId : Text) (parsed : Parsed) (tag : Text) :
    (∃ next, parseField newId parsed tag = some next) ↔ ReadableField tag := by
  unfold parseField ReadableField
  cases splitOnce ':' tag with
  | none =>
    constructor
    · intro _ key value absent
      cases absent
    · intro _
      exact ⟨parsed, rfl⟩
  | some pair =>
    obtain ⟨key, value⟩ := pair
    dsimp only
    constructor
    · rintro ⟨next, isNext⟩ _ _ ⟨⟩
      refine ⟨?_, ?_, ?_⟩
      · rintro rfl
        by_cases first : value = letters "v1"
        · exact mem_cons.2 (.inl first)
        by_cases second : value = markerTagVersion
        · exact mem_cons.2 (.inr (mem_singleton.2 second))
        rw [if_neg first, if_neg second] at isNext
        cases isNext
      · rintro rfl
        obtain ⟨mode, isMode, _⟩ := map_eq_some_iff.1 isNext
        exact (from_cursor_value_some value).1 ⟨mode, isMode⟩
      · rintro rfl empty
        rw [empty] at isNext
        cases isNext
    · intro readable
      obtain ⟨version, source, generation⟩ := readable key value rfl
      split
      · rename_i isCache
        split
        · exact ⟨_, rfl⟩
        rename_i notFirst
        rcases mem_cons.1 (version isCache) with first | second
        · exact absurd first notFirst
        · rw [if_pos (mem_singleton.1 second)]
          exact ⟨_, rfl⟩
      split
      · exact ⟨_, rfl⟩
      split
      · exact ⟨_, rfl⟩
      split
      · split
        all_goals exact ⟨_, rfl⟩
      split
      · split
        all_goals exact ⟨_, rfl⟩
      split
      · rename_i isSource
        obtain ⟨mode, isMode⟩ := (from_cursor_value_some value).2 (source isSource)
        rw [isMode]
        exact ⟨_, rfl⟩
      split
      · rename_i isGeneration
        rw [if_neg (generation isGeneration)]
        exact ⟨_, rfl⟩
      · exact ⟨_, rfl⟩

/-- A field keeps what the fields before it have found, and the version is one of the known. -/
structure Keeps (parsed next : Parsed) : Prop where
  cache : parsed.hasListCache = true → next.hasListCache = true
  version : parsed.continuation.version ∈ legacyMarkerTagVersions →
    next.continuation.version ∈ legacyMarkerTagVersions

theorem Keeps.refl (parsed : Parsed) : Keeps parsed parsed := ⟨id, id⟩

variable {newId front marker id : Text}

theorem parse_field_keeps {parsed next : Parsed} {tag : Text}
    (isNext : parseField newId parsed tag = some next) : Keeps parsed next := by
  unfold parseField at isNext
  split at isNext
  · cases isNext
    exact .refl parsed
  split at isNext
  · split at isNext
    · cases isNext
      exact ⟨fun _ => rfl, fun _ => mem_cons.2 (.inl rfl)⟩
    split at isNext
    · cases isNext
      exact ⟨fun _ => rfl, fun _ => mem_cons.2 (.inr (mem_singleton.2 rfl))⟩
    · cases isNext
  split at isNext
  · cases isNext
    exact ⟨id, id⟩
  split at isNext
  · cases isNext
    exact ⟨id, id⟩
  split at isNext
  · split at isNext
    all_goals
      cases isNext
      exact ⟨id, id⟩
  split at isNext
  · split at isNext
    all_goals
      cases isNext
      exact ⟨id, id⟩
  split at isNext
  · obtain ⟨mode, _, rfl⟩ := map_eq_some_iff.1 isNext
    exact ⟨id, id⟩
  split at isNext
  · split at isNext
    · cases isNext
    · cases isNext
      exact ⟨id, id⟩
  · cases isNext
    exact .refl parsed

theorem parse_fields_readable (newId : Text) (tags : List Text) (parsed : Parsed) :
    (∃ next, tags.foldlM (parseField newId) parsed = some next) ↔
      ∀ tag ∈ tags, ReadableField tag := by
  induction tags generalizing parsed with
  | nil => exact ⟨fun _ tag absent => absurd absent not_mem_nil, fun _ => ⟨parsed, rfl⟩⟩
  | cons tag tags ih =>
    rw [foldlM_cons, forall_mem_cons]
    constructor
    · rintro ⟨last, isLast⟩
      obtain ⟨next, isNext, rest⟩ := bind_eq_some_iff.1 isLast
      exact ⟨(parse_field_readable newId parsed tag).1 ⟨next, isNext⟩, (ih next).1 ⟨last, rest⟩⟩
    · rintro ⟨here, rest⟩
      obtain ⟨next, isNext⟩ := (parse_field_readable newId parsed tag).2 here
      obtain ⟨last, isLast⟩ := (ih next).2 rest
      exact ⟨last, bind_eq_some_iff.2 ⟨next, isNext, isLast⟩⟩

theorem parse_fields_keep {tags : List Text} {parsed last : Parsed}
    (isLast : tags.foldlM (parseField newId) parsed = some last) : Keeps parsed last := by
  induction tags generalizing parsed with
  | nil =>
    cases isLast
    exact .refl _
  | cons tag tags ih =>
    obtain ⟨next, isNext, rest⟩ := bind_eq_some_iff.1 isLast
    have here := parse_field_keeps isNext
    have later := ih rest
    exact ⟨fun found => later.cache (here.cache found),
      fun known => later.version (here.version known)⟩

theorem split_once_append {separator : Char} {key : Text} (absent : separator ∉ key)
    (value : Text) : splitOnce separator (key ++ separator :: value) = some (key, value) := by
  have apart : ∀ c ∈ key, decide (c ≠ separator) = true := by
    intro c member
    apply decide_eq_true
    rintro rfl
    exact absent member
  unfold splitOnce
  rw [dropWhile_append_of_pos apart, takeWhile_append_of_pos apart]
  simp

theorem split_on_append_head {separator : Char} (absent : separator ∉ front) (rest : Text) :
    (front ++ rest).splitOn separator = (rest.splitOn separator).modifyHead (front ++ ·) := by
  induction front with
  | nil =>
    rw [nil_append]
    cases rest.splitOn separator with
    | nil => rfl
    | cons head tail => rfl
  | cons c front ih =>
    obtain ⟨apart, absent⟩ := not_or.1 fun member => absent (mem_cons.2 member)
    rw [cons_append, splitOn_cons_eq_if_modifyHead, ih absent, if_neg]
    · rw [modifyHead_modifyHead]
      rfl
    · intro same
      exact apart (eq_of_beq same).symm

/-- What opens a tag is a field that names the cache, so a tag whose fields are readable is
accepted. -/
theorem parse_iff_readable {newId body : Text} (opens : letters "rustfs_cache:" <+: body) :
    (∃ result, ListContinuationV2.parse newId body = some result) ↔
      ∀ tag ∈ body.splitOn ',', ReadableField tag := by
  obtain ⟨rest, rfl⟩ := opens
  rw [← parse_fields_readable newId _
    ⟨⟨markerTagVersion, none, none, none, none, none⟩, false, false⟩]
  constructor
  · rintro ⟨result, isResult⟩
    obtain ⟨last, isLast, _⟩ := bind_eq_some_iff.1 isResult
    exact ⟨last, isLast⟩
  · rintro ⟨last, isLast⟩
    have known := (parse_fields_keep isLast).version (by decide)
    have found : last.hasListCache = true := by
      rw [split_on_append_head (by decide)] at isLast
      cases fields : rest.splitOn ',' with
      | nil => exact absurd fields (splitOn_ne_nil _ _)
      | cons head tail =>
        rw [fields, modifyHead_cons, foldlM_cons] at isLast
        obtain ⟨next, isNext, later⟩ := bind_eq_some_iff.1 isLast
        apply (parse_fields_keep later).cache
        have named : splitOnce ':' (letters "rustfs_cache:" ++ head) =
            some (letters "rustfs_cache", head) :=
          @split_once_append ':' (letters "rustfs_cache") (by decide) head
        unfold parseField at isNext
        rw [named] at isNext
        dsimp only at isNext
        rw [if_pos rfl] at isNext
        split at isNext
        · cases isNext
          rfl
        split at isNext
        · cases isNext
          rfl
        · cases isNext
    refine ⟨(last.continuation, last.shouldCreate), bind_eq_some_iff.2 ⟨last, isLast, ?_⟩⟩
    rw [if_pos]
    rw [found, Bool.true_and, contains_iff_mem]
    exact known

/-- The opening without its bracket. -/
def cacheFieldStart : Text := letters "rustfs_cache:"

theorem opening_filled : listCacheMarkerPrefix ≠ [] := by decide

theorem opened_split {tail : Text}
    (opened : splitLast listCacheMarkerPrefix marker = some (front, tail)) :
    ∃ inside, tail = '[' :: inside ∧ marker = front ++ '[' :: inside ∧
      cacheFieldStart <+: inside ∧ ¬ listCacheMarkerPrefix <:+: inside := by
  obtain ⟨c, inside, rfl, isMarker, here, last⟩ := split_last_split opening_filled opened
  obtain ⟨isBracket, opens⟩ := List.cons_prefix_cons.1 here
  subst isBracket
  exact ⟨inside, rfl, isMarker, opens, last⟩

theorem split_at_opening {inside : Text} (opens : cacheFieldStart <+: inside)
    (last : ¬ listCacheMarkerPrefix <:+: inside) (front : Text) :
    splitLast listCacheMarkerPrefix (front ++ '[' :: inside) = some (front, '[' :: inside) := by
  apply split_last_append opening_filled _ last
  exact List.cons_prefix_cons.2 ⟨rfl, opens⟩

theorem closed_split {text inner closing : Text} (closed : splitLast [']'] text = some (inner, closing)) :
    ∃ rest, closing = ']' :: rest ∧ text = inner ++ ']' :: rest ∧ ']' ∉ rest := by
  obtain ⟨c, rest, rfl, isText, closes, noMore⟩ := split_last_split (by decide) closed
  obtain ⟨isClosing, _⟩ := List.cons_prefix_cons.1 closes
  subst isClosing
  refine ⟨rest, rfl, isText, ?_⟩
  intro member
  obtain ⟨before, after, rfl⟩ := List.append_of_mem member
  exact noMore ⟨before, after, by simp⟩

theorem split_at_closing {rest : Text} (last : ']' ∉ rest) (inner : Text) :
    splitLast [']'] (inner ++ ']' :: rest) = some (inner, ']' :: rest) := by
  apply split_last_append (by decide) (List.cons_prefix_cons.2 ⟨rfl, List.nil_prefix⟩)
  rintro ⟨before, after, rfl⟩
  exact last (by simp)

theorem prefix_before {stop : Char} {start body rest : Text} (absent : stop ∉ start)
    (starts : start <+: body ++ stop :: rest) : start <+: body := by
  have reached : body ++ [stop] <+: body ++ stop :: rest := ⟨rest, by simp⟩
  rcases prefix_or_prefix_of_prefix starts reached with inside | beyond
  · rcases prefix_concat_iff.1 inside with rfl | inside
    · exact absurd (by simp) absent
    · exact inside
  · exact absurd (beyond.subset (by simp)) absent

theorem cut_tag_iff {body : Text} :
    cutTag marker = some (front, body) ↔
      ∃ rest, marker = front ++ '[' :: (body ++ ']' :: rest) ∧ cacheFieldStart <+: body ∧
        ']' ∉ rest ∧ ¬ listCacheMarkerPrefix <:+: body ++ ']' :: rest := by
  unfold cutTag
  constructor
  · intro cut
    split at cut
    · cases cut
    rename_i front' tail opened
    split at cut
    · cases cut
    rename_i inner closing closed
    cases cut
    obtain ⟨inside, rfl, isMarker, opens, last⟩ := opened_split opened
    obtain ⟨rest, rfl, isInside, notLater⟩ := closed_split closed
    cases inner with
    | nil => cases isInside
    | cons c body =>
      obtain ⟨isBracket, rfl⟩ := List.cons.inj isInside
      exact ⟨rest, isMarker, prefix_before (by decide) opens, notLater, last⟩
  · rintro ⟨rest, rfl, opens, notLater, last⟩
    rw [split_at_opening (opens.trans (List.prefix_append _ _)) last]
    dsimp only
    rw [← List.cons_append, split_at_closing notLater]
    rfl

theorem carries_tag_iff :
    CarriesTag marker ↔ ∃ front body, cutTag marker = some (front, body) ∧
      ∀ tag ∈ body.splitOn ',', ReadableField tag := by
  constructor
  · rintro ⟨front, body, rest, isMarker, opens, notLater, last, readable⟩
    exact ⟨front, body, cut_tag_iff.2 ⟨rest, isMarker, opens, notLater, last⟩, readable⟩
  · rintro ⟨front, body, cut, readable⟩
    obtain ⟨rest, isMarker, opens, notLater, last⟩ := cut_tag_iff.1 cut
    exact ⟨front, body, rest, isMarker, opens, notLater, last, readable⟩

theorem parse_marker_keeps_iff (newId : Text) {options : ListPathOptions}
    (isMarker : options.marker = some marker) :
    (options.parseMarker newId).marker = some marker ↔ ¬ CarriesTag marker := by
  rw [carries_tag_iff]
  unfold ListPathOptions.parseMarker
  rw [isMarker, bind_some]
  cases cut : cutTag marker with
  | none =>
    refine ⟨?_, fun _ => isMarker⟩
    rintro _ ⟨front, body, isCut, _⟩
    cases isCut
  | some pair =>
    obtain ⟨front, body⟩ := pair
    obtain ⟨rest, rfl, opens, _, _⟩ := cut_tag_iff.1 cut
    have accepted := @parse_iff_readable newId body opens
    dsimp only
    cases parsed : ListContinuationV2.parse newId body with
    | none =>
      refine ⟨?_, fun _ => isMarker⟩
      rintro _ ⟨front', body', same, readable⟩
      cases same
      obtain ⟨result, isResult⟩ := accepted.2 readable
      rw [parsed] at isResult
      cases isResult
    | some result =>
      constructor
      · intro same
        have lengths := congrArg List.length (Option.some.inj same)
        rw [length_append, length_cons] at lengths
        omega
      · intro untagged
        exact absurd ⟨front, body, rfl, accepted.1 ⟨result, parsed⟩⟩ untagged

def pageTag (id : Text) : Text :=
  letters "rustfs_cache:v2" ++ ',' :: ((letters "id:" ++ id) ++ ',' :: letters "src:walker,gen:live")

theorem append_list_cache_id_eq (key id : Text) :
    appendListCacheIdToMarker key (some id) = key ++ '[' :: (pageTag id ++ [']']) := by
  have opening : listCacheMarkerPrefix ++ markerTagVersion ++ letters ",id:" =
      '[' :: (letters "rustfs_cache:v2" ++ ',' :: letters "id:") := by decide
  have closing : letters ",src:" ++ ListSourceMode.walker.cursorValue ++
      (letters ",gen:" ++ listCursorGenerationLive) = ',' :: letters "src:walker,gen:live" := by
    decide
  calc appendListCacheIdToMarker key (some id)
      = key ++ (listCacheMarkerPrefix ++ markerTagVersion ++ letters ",id:") ++ id ++
          (letters ",src:" ++ ListSourceMode.walker.cursorValue ++
            (letters ",gen:" ++ listCursorGenerationLive)) ++ [']'] := by
        simp only [appendListCacheIdToMarker, ListContinuationV2.encodeMarker, field, map_none,
          map_some, append_nil, append_assoc]
    _ = key ++ '[' :: (pageTag id ++ [']']) := by
        rw [opening, closing, pageTag]
        simp only [append_assoc, cons_append]

theorem page_tag_fields (comma : ',' ∉ id) :
    (pageTag id).splitOn ',' =
      [letters "rustfs_cache:v2", letters "id:" ++ id, letters "src:walker", letters "gen:live"] := by
  have named : ',' ∉ letters "id:" ++ id := by
    rw [mem_append]
    rintro (inName | inId)
    · exact absurd inName (by decide)
    · exact comma inId
  have last : (letters "src:walker,gen:live").splitOn ',' =
      [letters "src:walker", letters "gen:live"] := by decide
  rw [pageTag, splitOn_append_cons_self_of_not_mem (by decide),
    splitOn_append_cons_self_of_not_mem named, last]

theorem page_tag_parsed (newId : Text) (comma : ',' ∉ id) :
    ListContinuationV2.parse newId (pageTag id) =
      some (⟨markerTagVersion, some id, none, none, some .walker, some listCursorGenerationLive⟩,
        false) := by
  unfold ListContinuationV2.parse
  rw [page_tag_fields comma]
  rfl

theorem no_opening_without_bracket {text : Text} (absent : '[' ∉ text) :
    ¬ listCacheMarkerPrefix <:+: text :=
  fun occurs => absent (occurs.subset (by decide))

theorem no_opening_append {back : Text} (absent : '[' ∉ front)
    (notBehind : ¬ listCacheMarkerPrefix <:+: back) :
    ¬ listCacheMarkerPrefix <:+: front ++ back := by
  induction front with
  | nil => exact notBehind
  | cons c front ih =>
    obtain ⟨apart, absent⟩ := not_or.1 fun member => absent (mem_cons.2 member)
    intro occurs
    rcases infix_cons_iff.1 occurs with here | behind
    · exact apart (cons_prefix_cons.1 here).1
    · exact ih absent behind

theorem no_opening_in_id (colon : ':' ∉ id) (rest : Text)
    (notBehind : ¬ listCacheMarkerPrefix <:+: ',' :: rest) :
    ¬ listCacheMarkerPrefix <:+: id ++ ',' :: rest := by
  induction id with
  | nil => exact notBehind
  | cons c id ih =>
    obtain ⟨_, colon⟩ := not_or.1 fun member => colon (mem_cons.2 member)
    intro occurs
    rcases infix_cons_iff.1 occurs with here | behind
    · have inside := prefix_before (by decide) (cons_prefix_cons.1 here).2
      exact colon (inside.subset (by decide))
    · exact ih colon behind

theorem page_tag_opens (id : Text) : cacheFieldStart <+: pageTag id :=
  List.IsPrefix.trans (by decide) (prefix_append (letters "rustfs_cache:v2") _)

theorem page_tag_last (colon : ':' ∉ id) : ¬ listCacheMarkerPrefix <:+: pageTag id ++ [']'] := by
  have behind : ¬ listCacheMarkerPrefix <:+: ',' :: (letters "src:walker,gen:live" ++ [']']) :=
    no_opening_without_bracket (by decide)
  have spread : pageTag id ++ [']'] = letters "rustfs_cache:v2,id:" ++
      (id ++ ',' :: (letters "src:walker,gen:live" ++ [']'])) := by
    have front : letters "rustfs_cache:v2,id:" = letters "rustfs_cache:v2" ++ ',' :: letters "id:" := by
      decide
    rw [pageTag, front]
    simp only [List.append_assoc, List.cons_append]
  rw [spread]
  exact no_opening_append (by decide) (no_opening_in_id colon _ behind)

theorem first_parse (newId : Text) (request : ListPathOptions) (key : Text)
    (comma : ',' ∉ id) (colon : ':' ∉ id) :
    ({ request with marker := some (appendListCacheIdToMarker key (some id)) } :
        ListPathOptions).parseMarker newId =
      { request with
        marker := some key
        id := some id
        poolIdx := none
        setIdx := none
        cursorSource := some .walker
        cursorGeneration := some listCursorGenerationLive } := by
  unfold ListPathOptions.parseMarker
  rw [append_list_cache_id_eq]
  dsimp only
  have cut : cutTag (key ++ '[' :: (pageTag id ++ [']'])) = some (key, pageTag id) :=
    cut_tag_iff.2 ⟨[], rfl, page_tag_opens id, not_mem_nil, page_tag_last colon⟩
  rw [bind_some, cut]
  dsimp only
  rw [page_tag_parsed newId comma]
  dsimp only
  rw [Bool.false_or]

/-- A key that itself carries a tag loses it at the second parse, and only such a key does. A
marker before the prefix is dropped and not in force either. -/
theorem marker_in_force_iff (validArgs : Text → Text → Bool) (firstId nextId : Text)
    (request options : ListPathOptions) (key id : Text) (comma : ',' ∉ id) (colon : ':' ∉ id)
    (inForce : resume validArgs firstId nextId request key id = .ok options) :
    options.marker = some key ↔ request.keyPrefix ≤ key ∧ ¬ CarriesTag key := by
  unfold resume at inForce
  rw [first_parse firstId request key comma colon] at inForce
  unfold listPathOptions at inForce
  dsimp only at inForce
  split at inForce
  · cases inForce
  split at inForce
  · cases inForce
  split at inForce
  · cases inForce
  split at inForce
  · cases inForce
  by_cases under : request.keyPrefix ≤ key
  · have kept : (some key).filter (fun marker => decide (request.keyPrefix ≤ marker)) = some key := by
      rw [filter_some, if_pos (decide_eq_true under)]
    rw [kept] at inForce
    split at inForce
    all_goals
      cases inForce
      rw [parse_marker_keeps_iff nextId rfl]
      exact ⟨fun untagged => ⟨under, untagged⟩, And.right⟩
  · have dropped : (some key).filter (fun marker => decide (request.keyPrefix ≤ marker)) = none := by
      rw [filter_some, if_neg]
      rw [decide_eq_false under]
      exact Bool.false_ne_true
    rw [dropped] at inForce
    split at inForce
    all_goals
      cases inForce
      exact ⟨fun found => absurd found (by simp [ListPathOptions.parseMarker]),
        fun holds => absurd holds.1 under⟩

/-- A request for the objects of a bucket, a page of a thousand. -/
def wholeBucket : ListPathOptions :=
  ⟨letters "bucket", [], none, 1001, none, false, false, none, none, none, none, none, false⟩

theorem plain_key_in_force :
    ∃ options, resume (fun _ _ => true) [] [] wholeBucket (letters "a.jpg") (letters "id") =
        .ok options ∧ ¬ CarriesTag (letters "a.jpg") ∧ options.marker = some (letters "a.jpg") := by
  have untagged : ¬ CarriesTag (letters "a.jpg") := by
    rw [carries_tag_iff]
    rintro ⟨front, body, cut, _⟩
    cases cut
  refine ⟨_, rfl, untagged, ?_⟩
  exact (marker_in_force_iff (fun _ _ => true) [] [] wholeBucket _ (letters "a.jpg") (letters "id")
    (by decide) (by decide) rfl).2 ⟨by decide, untagged⟩

/-- The tag in the middle of the key is stripped with the rest of the key. -/
theorem tagged_key_not_in_force :
    ∃ options, resume (fun _ _ => true) [] [] wholeBucket
        (letters "photos/[rustfs_cache:v2]/image.jpg") (letters "id") = .ok options ∧
      options.marker = some (letters "photos/") ∧
      options.marker ≠ some (letters "photos/[rustfs_cache:v2]/image.jpg") := by
  refine ⟨_, rfl, by decide, by decide +kernel⟩

end Rustfs.Ecstore.ListMarker
