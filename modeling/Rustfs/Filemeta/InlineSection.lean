import Rustfs.Filemeta.WrittenMaps
import Mathlib.Data.List.Induction
import Mathlib.Data.List.Perm.Subperm

/-!
# Inline sections that validate

An inline section that the version paths write is the encoding of fields with a key
each. Such a section validates, and replacing or removing a key gives such a section
again. Sections written by other programs may validate without this form and are not
covered.
-/

namespace Rustfs.Filemeta

open List Library Library.MessagePack Utils
open Library.ByteReader (Reads Steps)

variable {key : String}

namespace InlineData

/-- The key is not empty, and both parts are within the bounds of the codec. -/
structure FieldFits (field : String × Bytes) : Prop where
  named : field.1.isEmpty = false
  key : TextFits field.1
  value : field.2.length < 2 ^ 32

/-- Both parts are within the bounds of the codec. -/
structure FieldWithin (field : String × Bytes) : Prop where
  key : TextFits field.1
  value : field.2.length < 2 ^ 32

theorem FieldFits.within {field : String × Bytes} (fits : FieldFits field) : FieldWithin field :=
  ⟨fits.key, fits.value⟩

/-- The encoding of some fields. -/
def Written (data : InlineData) : Prop :=
  ∃ fields, data = serialize fields ∧ fields.length < 2 ^ 32 ∧ ∀ field ∈ fields, FieldFits field

def writeField (field : String × Bytes) : Bytes := writeMsgpString field.1 ++ writeBin field.2

section Reading

variable {field : String × Bytes} {fields : List (String × Bytes)}

theorem reads_value {value : Bytes} (short : value.length < 2 ^ 32) :
    Reads readValue (writeBin value) value := by
  rw [writeBin, as_u32_eq short]
  exact ((reads_bin_len short).map_error _).bind (Reads.take _ value)

theorem reads_key (short : TextFits key) : Reads readKey (writeMsgpString key) key :=
  reads_msgp_string short

theorem validates_entry (fits : FieldFits field) : Reads validateEntry (writeField field) () := by
  apply (reads_key fits.key).bind
  rw [fits.named]
  exact (reads_value fits.value).bind_pure

theorem reads_entries (few : fields.length < 2 ^ 32) (fits : ∀ field ∈ fields, FieldWithin field) :
    Reads readEntries (writeMapLen fields.length ++ fields.flatMap writeField) fields := by
  have each : ∀ field ∈ fields,
      Reads (do let key ← readKey; return (key, ← readValue)) (writeField field) field := by
    intro field member
    have fieldFits := fits field member
    exact (reads_key fieldFits.key).bind (reads_value fieldFits.value).bind_pure
  have items := Reads.repeated_map writeField id fields each
  rw [map_id] at items
  exact ((reads_map_len few).map_error _).bind items

theorem validates_entries (few : fields.length < 2 ^ 32) (fits : ∀ field ∈ fields, FieldFits field) :
    Reads validateEntries (writeMapLen fields.length ++ fields.flatMap writeField) () := by
  have steps : Steps (fun _ => validateEntry) (fields.map writeField) () () := by
    induction fields with
    | nil => exact .done ()
    | cons field fields ih =>
      rw [forall_mem_cons] at fits
      rw [length_cons] at few
      exact .step (validates_entry fits.1) (ih (by omega) fits.2)
  have pieces := Reads.iterate steps
  rw [length_map, ← flatMap_def] at pieces
  exact ((reads_map_len few).map_error _).bind pieces

theorem write_fields_cons (within : FieldWithin field) :
    (field :: fields).flatMap writeField = writeStrLen (utf8 field.1).length ++
      (utf8 field.1 ++ (writeBin field.2 ++ fields.flatMap writeField)) := by
  rw [flatMap_cons, writeField, writeMsgpString, writeStr, as_u32_eq (element_fits within.key)]
  simp only [append_assoc]

theorem reads_remove_loop (shouldRemove : Bytes → Bool)
    (within : ∀ field ∈ fields, FieldWithin field) :
    Reads (removeLoop shouldRemove fields.length) (fields.flatMap writeField)
      (fields.any fun field => shouldRemove (utf8 field.1),
        fields.filter fun field => !shouldRemove (utf8 field.1)) := by
  induction fields with
  | nil => exact Reads.pure _
  | cons field fields ih =>
    rw [forall_mem_cons] at within
    have reads := ih within.2
    rw [write_fields_cons within.1, any_cons, filter_cons]
    apply ((reads_str_len (element_fits within.1.key)).map_error _).bind
    apply (reads_exact_vec within.1.key).bind
    apply (reads_value within.1.value).bind
    cases shouldRemove (utf8 field.1) with
    | true => exact reads.bind_pure
    | false =>
      have decoded : Reads (decodeUtf8 (utf8 field.1)) [] field.1 := by
        rw [decodeUtf8, from_utf8_utf8]
        exact Reads.pure _
      exact decoded.bind reads.bind_pure

end Reading

section Writing

variable {data next : InlineData} {key : String} {value : Bytes} {found : Bool}
  {fields : List (String × Bytes)}

theorem serialize_cases (few : fields.length < 2 ^ 32) :
    (fields = [] ∧ serialize fields = []) ∨
      serialize fields = inlineDataVer :: (writeMapLen fields.length ++ fields.flatMap writeField) := by
  cases fields with
  | nil => exact .inl ⟨rfl, rfl⟩
  | cons field fields =>
    right
    unfold serialize
    rw [as_u32_eq few]
    rfl

theorem Written.validate (written : Written data) : validate data = .ok () := by
  obtain ⟨fields, rfl, few, fits⟩ := written
  rcases serialize_cases few with ⟨_, empty⟩ | full
  · rw [empty]
    rfl
  · have read := validates_entries few fits []
    rw [append_nil] at read
    rw [full]
    change (validateEntries.run (writeMapLen _ ++ _)).map Prod.fst = _
    rw [read]
    rfl

theorem map_len_nonempty (len : Nat) (bytes : Bytes) : (writeMapLen len ++ bytes).isEmpty = false := by
  unfold writeMapLen
  split
  · rfl
  split
  all_goals rfl

theorem entries_serialize (few : fields.length < 2 ^ 32) :
    entries (serialize fields) = .ok fields.length := by
  rcases serialize_cases few with ⟨noFields, empty⟩ | full
  · rw [empty, noFields]
    rfl
  · have read := ((reads_map_len few).map_error Error.rmpDecodeValueRead) (fields.flatMap writeField)
    rw [full]
    change ((valueRead readMapLen).run (writeMapLen _ ++ _)).map Prod.fst = _
    rw [valueRead, read]
    rfl

theorem after_version_cons {version : UInt8} {bytes : Bytes} (full : data = version :: bytes) :
    data.afterVersion = bytes := by
  rw [full]
  rfl

theorem run_map_len {α : Type} (few : fields.length < 2 ^ 32) (next : Nat → Decode α) :
    (valueRead readMapLen >>= next).run (writeMapLen fields.length ++ fields.flatMap writeField) =
      (next fields.length).run (fields.flatMap writeField) :=
  ByteReader.run_bind_ok (((reads_map_len few).map_error _) _)

theorem filter_unmet {chosen : String × Bytes → Bool} (vacant : fields.any chosen = false) :
    fields.filter (fun field => !chosen field) = fields := by
  rw [filter_eq_self]
  intro field member
  rw [Bool.eq_false_iff.2 (any_eq_false.1 vacant field member)]
  rfl

theorem remove_keys_by_serialize (few : fields.length < 2 ^ 32)
    (within : ∀ field ∈ fields, FieldWithin field) (shouldRemove : Bytes → Bool) :
    removeKeysBy (serialize fields) shouldRemove =
      .ok (fields.any fun field => shouldRemove (utf8 field.1),
        serialize (fields.filter fun field => !shouldRemove (utf8 field.1))) := by
  rcases serialize_cases few with ⟨isNil, empty⟩ | full
  · rw [empty, isNil]
    rfl
  · have reads := reads_remove_loop shouldRemove within []
    rw [append_nil] at reads
    rw [removeKeysBy, after_version_cons full, map_len_nonempty, if_neg Bool.false_ne_true]
    change Except.map _ ((_ >>= removeLoop shouldRemove).run _) = _
    rw [run_map_len few, reads]
    cases found : fields.any fun field => shouldRemove (utf8 field.1) with
    | true => rfl
    | false =>
      rw [filter_unmet found]
      rfl

theorem Written.remove_key (written : Written data) (removed : removeKey data key = .ok (found, next)) :
    Written next := by
  unfold removeKey at removed
  split at removed
  · cases removed
  · cases removed
    exact written
  · obtain ⟨fields, rfl, few, fits⟩ := written
    rw [remove_keys_by_serialize few fun field member => (fits field member).within] at removed
    cases removed
    have fewer : (fields.filter fun field => !decide (utf8 field.1 = utf8 key)).Sublist fields :=
      filter_sublist
    exact ⟨_, rfl, Nat.lt_of_le_of_lt fewer.length_le few,
      fun field member => fits field (fewer.subset member)⟩

theorem replace_entries_forall {holds : String × Bytes → Prop} (fits : ∀ field ∈ fields, holds field)
    (new : holds (key, value)) : ∀ field ∈ replaceEntries key value fields, holds field := by
  intro field member
  unfold replaceEntries at member
  split at member
  · obtain ⟨old, isOld, rfl⟩ := mem_map.1 member
    split
    · exact new
    · exact fits old isOld
  · rcases mem_append.1 member with old | added
    · exact fits field old
    · rw [mem_singleton.1 added]
      exact new

theorem replace_entries_length_le (key : String) (value : Bytes) (fields : List (String × Bytes)) :
    (replaceEntries key value fields).length ≤ fields.length + 1 := by
  unfold replaceEntries
  split
  · rw [length_map]
    exact Nat.le_succ _
  · rw [length_append]
    exact Nat.le_refl _

theorem Written.replace (written : Written data) (new : FieldFits (key, value))
    (room : ∀ count, entries data = .ok count → count + 1 < 2 ^ 32)
    (replaced : replace data key value = .ok next) : Written next := by
  obtain ⟨fields, rfl, few, fits⟩ := written
  have more := room fields.length (entries_serialize few)
  unfold InlineData.replace at replaced
  rcases serialize_cases few with ⟨_, empty⟩ | full
  · rw [empty] at replaced
    cases replaced
    refine ⟨[(key, value)], rfl, Nat.one_lt_two_pow (by decide), ?_⟩
    intro field member
    rw [mem_singleton.1 member]
    exact new
  · have read := reads_entries few (fun field member => (fits field member).within) []
    rw [append_nil] at read
    rw [after_version_cons full, map_len_nonempty, if_neg Bool.false_ne_true, read] at replaced
    cases replaced
    refine ⟨_, rfl, ?_, replace_entries_forall fits new⟩
    exact Nat.lt_of_le_of_lt (replace_entries_length_le key value fields) more

end Writing

def removeTwoKeysByBytes (self : InlineData) (firstKey secondKey : Bytes) :
    Except Error (Bool × InlineData) :=
  let same : Bool := firstKey = secondKey
  self.removeKeysBy fun field =>
    if same then field = firstKey else field = firstKey || field = secondKey

def remove (self : InlineData) (removeKeys : List Uuid) : Except Error (Bool × InlineData) :=
  let encodedKeys := removeKeys.map fun key => utf8 key.text
  self.removeKeysBy fun candidate => encodedKeys.any fun key => candidate = key

def removeTwo (self : InlineData) (first second : Uuid) : Except Error (Bool × InlineData) :=
  self.removeTwoKeysByBytes (utf8 first.text) (utf8 second.text)

inductive Call
  | replace (key : String) (value : Bytes)
  | removeKey (key : String)
  | remove (keys : List Uuid)
  | removeTwo (first second : Uuid)

namespace Call

/-- The flag is what a removal returns; a replacement returns none. -/
def apply (self : InlineData) : Call → Except Error (Bool × InlineData)
  | .replace key value => (self.replace key value).map fun next => (false, next)
  | .removeKey key => self.removeKey key
  | .remove keys => self.remove keys
  | .removeTwo first second => self.removeTwo first second

def removes (key : String) : Call → Bool
  | .replace .. => false
  | .removeKey name => key = name
  | .remove keys => keys.any fun name => key = name.text
  | .removeTwo first second => key = first.text || key = second.text

def update (key : String) (value : Option Bytes) : Call → Option Bytes
  | .replace name new => if key = name then some new else value
  | call => if call.removes key then none else value

/-- The bounds of the codec on what a replacement writes. -/
def Fits : Call → Prop
  | .replace key value => FieldWithin (key, value)
  | _ => True

end Call

def run (calls : List Call) : Except Error InlineData :=
  calls.foldlM (fun data call => (call.apply data).map Prod.snd) []

/-- The value of the last replacement of the key that no removal of the key follows. -/
def held (calls : List Call) (key : String) : Option Bytes :=
  calls.foldl (fun value call => call.update key value) none

def Few (held : String → Option Bytes) : Prop :=
  ∀ keys : List String, keys.Nodup → (∀ key ∈ keys, (held key).isSome) → keys.length < 2 ^ 32

/-- The fields are the entries of the map, in some order. -/
structure Lists (fields : List (String × Bytes)) (held : String → Option Bytes) : Prop where
  distinct : (fields.map Prod.fst).Nodup
  within : ∀ field ∈ fields, FieldWithin field
  entry : ∀ key value, (key, value) ∈ fields ↔ held key = some value

section Scanning

variable {fields : List (String × Bytes)} {data : InlineData} {key : String}

theorem utf8_eq_iff (left right : String) : utf8 left = utf8 right ↔ left = right := by
  constructor
  · intro same
    have decoded := from_utf8_utf8 left
    rw [same, from_utf8_utf8] at decoded
    cases decoded
    rfl
  · rintro rfl
    rfl

theorem find_loop_run (within : ∀ field ∈ fields, FieldWithin field) (key : String) :
    ((findLoop key fields.length).run (fields.flatMap writeField)).map Prod.fst =
      .ok ((fields.find? fun field => field.1 = key).map Prod.snd) := by
  induction fields with
  | nil => rfl
  | cons field fields ih =>
    rw [forall_mem_cons] at within
    have name := reads_key within.1.key (writeBin field.2 ++ fields.flatMap writeField)
    have value := reads_value within.1.value (fields.flatMap writeField)
    rw [length_cons, findLoop, flatMap_cons, writeField, append_assoc,
      ByteReader.run_bind_ok name, ByteReader.run_bind_ok value, find?_cons]
    by_cases met : field.1 = key
    · rw [if_pos met, decide_eq_true met]
      rfl
    · rw [if_neg met, decide_eq_false met]
      exact ih within.2

theorem contains_loop_run (within : ∀ field ∈ fields, FieldWithin field) (key : Bytes) :
    ((containsLoop key fields.length).run (fields.flatMap writeField)).map Prod.fst =
      .ok (fields.any fun field => utf8 field.1 = key) := by
  induction fields with
  | nil => rfl
  | cons field fields ih =>
    have first := forall_mem_cons.1 within
    have length := ((reads_str_len (element_fits first.1.key)).map_error Error.rmpDecodeValueRead)
      (utf8 field.1 ++ (writeBin field.2 ++ fields.flatMap writeField))
    have name := Reads.take (.other "InlineData key out of range" : Error) (utf8 field.1)
      (writeBin field.2 ++ fields.flatMap writeField)
    have value := reads_value first.1.value (fields.flatMap writeField)
    rw [write_fields_cons first.1, length_cons, containsLoop, valueRead,
      ByteReader.run_bind_ok length, ByteReader.run_bind_ok name, ByteReader.run_bind_ok value,
      any_cons]
    by_cases met : utf8 field.1 = key
    · rw [if_pos met, decide_eq_true met]
      rfl
    · rw [if_neg met, decide_eq_false met]
      exact ih first.2

theorem find_serialize (few : fields.length < 2 ^ 32) (key : String) :
    find (serialize fields) key =
      ((findLoop key fields.length).run (fields.flatMap writeField)).map Prod.fst := by
  rcases serialize_cases few with ⟨isNil, empty⟩ | full
  · rw [empty, isNil]
    rfl
  · rw [full, find]
    change ((_ >>= findLoop key).run (writeMapLen _ ++ _)).map Prod.fst = _
    rw [run_map_len few]

end Scanning

section Calls

variable {fields : List (String × Bytes)} {held : String → Option Bytes} {data : InlineData}

theorem Lists.length_lt (lists : Lists fields held) (few : Few held) : fields.length < 2 ^ 32 := by
  have keys := few (fields.map Prod.fst) lists.distinct
  rw [length_map] at keys
  apply keys
  intro key member
  obtain ⟨field, isField, rfl⟩ := mem_map.1 member
  rw [(lists.entry field.1 field.2).1 isField]
  rfl

theorem Lists.any_key (lists : Lists fields held) (chosen : String → Bool) :
    (fields.any fun field => chosen field.1) = true ↔ ∃ key, chosen key ∧ (held key).isSome := by
  rw [any_eq_true]
  constructor
  · rintro ⟨field, member, isChosen⟩
    refine ⟨field.1, isChosen, ?_⟩
    rw [(lists.entry field.1 field.2).1 member]
    rfl
  · rintro ⟨key, isChosen, present⟩
    obtain ⟨value, isValue⟩ := Option.isSome_iff_exists.1 present
    exact ⟨(key, value), (lists.entry key value).2 isValue, isChosen⟩

theorem Lists.find (lists : Lists fields held) (few : fields.length < 2 ^ 32) (key : String) :
    InlineData.find (serialize fields) key = .ok (held key) := by
  have first : (fields.find? fun field => field.1 = key).map Prod.snd = held key := by
    cases isHeld : held key with
    | none =>
      rw [Option.map_eq_none_iff, find?_eq_none]
      intro field member met
      rw [← of_decide_eq_true met, (lists.entry field.1 field.2).1 member] at isHeld
      cases isHeld
    | some value =>
      cases search : fields.find? fun field => field.1 = key with
      | none =>
        have absent := find?_eq_none.1 search _ ((lists.entry key value).2 isHeld)
        exact absurd (decide_eq_true rfl) absent
      | some field =>
        have met : field.1 = key := by simpa using find?_some search
        have holds := (lists.entry field.1 field.2).1 (mem_of_find?_eq_some search)
        rw [met, isHeld] at holds
        exact holds.symm
  rw [find_serialize few, find_loop_run lists.within, first]

theorem Lists.contains_key (lists : Lists fields held) (few : fields.length < 2 ^ 32) (key : Bytes) :
    containsKey (serialize fields) key = .ok (fields.any fun field => utf8 field.1 = key) := by
  rcases serialize_cases few with ⟨isNil, empty⟩ | full
  · rw [empty, isNil]
    rfl
  · rw [containsKey, after_version_cons full, map_len_nonempty, if_neg Bool.false_ne_true]
    change ((_ >>= containsLoop key).run _).map Prod.fst = _
    rw [run_map_len few, contains_loop_run lists.within]

theorem Lists.remove_key (lists : Lists fields held) (few : fields.length < 2 ^ 32) (key : String) :
    removeKey (serialize fields) key =
      removeKeysBy (serialize fields) fun candidate => candidate = utf8 key := by
  rw [removeKey, lists.contains_key few]
  cases found : fields.any fun field => utf8 field.1 = utf8 key with
  | true => rfl
  | false =>
    rw [remove_keys_by_serialize few lists.within, found, filter_unmet found]

theorem Lists.removed (lists : Lists fields held) (chosen : String → Bool) :
    Lists (fields.filter fun field => !chosen field.1)
      fun key => if chosen key then none else held key := by
  have fewer : (fields.filter fun field => !chosen field.1).Sublist fields := filter_sublist
  refine ⟨lists.distinct.sublist (fewer.map _), ?_, ?_⟩
  · exact fun field member => lists.within field (fewer.subset member)
  · intro key value
    rw [mem_filter, lists.entry]
    cases chosen key with
    | false => simp
    | true => simp

theorem Lists.replaced {value : Bytes} (lists : Lists fields held)
    (new : FieldWithin (key, value)) :
    Lists (replaceEntries key value fields)
      fun name => if name = key then some value else held name := by
  have within := replace_entries_forall lists.within new
  unfold replaceEntries at within ⊢
  by_cases present : (fields.any fun field => field.1 = key) = true
  · rw [if_pos present] at within ⊢
    obtain ⟨old, isOld, isKey⟩ := any_eq_true.1 present
    refine ⟨?_, within, ?_⟩
    · have same : (Prod.fst ∘ fun field : String × Bytes =>
          if field.1 = key then (key, value) else field) = Prod.fst := by
        funext field
        by_cases met : field.1 = key
        · simp [met]
        · simp [met]
      rw [map_map, same]
      exact lists.distinct
    · intro name found
      by_cases met : name = key
      · grind
      · rw [if_neg met, ← lists.entry]
        grind
  · rw [if_neg present] at within ⊢
    have absent (old : Bytes) : (key, old) ∉ fields := by
      intro member
      exact present (any_eq_true.2 ⟨_, member, decide_eq_true rfl⟩)
    refine ⟨?_, within, ?_⟩
    · grind [lists.distinct]
    · intro name found
      rw [mem_append, mem_singleton, lists.entry]
      by_cases met : name = key
      · subst met
        have missing := absent found
        rw [lists.entry] at missing
        simp [missing, eq_comm]
      · simp [met]

theorem Lists.replace (lists : Lists fields held) (few : fields.length < 2 ^ 32) (key : String)
    (value : Bytes) :
    InlineData.replace (serialize fields) key value =
      .ok (serialize (replaceEntries key value fields)) := by
  rcases serialize_cases few with ⟨isNil, empty⟩ | full
  · rw [empty, isNil]
    rfl
  · have read := reads_entries few lists.within []
    rw [append_nil] at read
    rw [InlineData.replace, after_version_cons full, map_len_nonempty, if_neg Bool.false_ne_true, read]

/-- What is to be shown of each call: it succeeds, and the section lists the updated map. -/
def Updates (fields : List (String × Bytes)) (held : String → Option Bytes) (call : Call) : Prop :=
  ∃ found next, call.apply (serialize fields) = .ok (found, serialize next) ∧
    (found = true ↔ ∃ key, call.removes key ∧ (held key).isSome) ∧
    (call.Fits → Lists next fun key => call.update key (held key))

theorem Lists.updates_of_removal {call : Call} {shouldRemove : Bytes → Bool}
    (lists : Lists fields held) (few : fields.length < 2 ^ 32)
    (ran : call.apply (serialize fields) = removeKeysBy (serialize fields) shouldRemove)
    (same : ∀ key, shouldRemove (utf8 key) = call.removes key)
    (after : ∀ key value, call.update key value = if call.removes key then none else value) :
    Updates fields held call := by
  refine ⟨_, _, ran.trans (remove_keys_by_serialize few lists.within shouldRemove), ?_, fun _ => ?_⟩
  · simp only [same]
    exact lists.any_key (Call.removes · call)
  · simp only [same, after]
    exact lists.removed (Call.removes · call)

theorem Lists.updates (lists : Lists fields held) (few : fields.length < 2 ^ 32) (call : Call) :
    Updates fields held call := by
  cases call with
  | replace key value =>
    refine ⟨false, _, ?_, ?_, lists.replaced⟩
    · rw [Call.apply, lists.replace few]
      rfl
    · simp [Call.removes]
  | removeKey key =>
    have ran : Call.apply (serialize fields) (.removeKey key) = _ := lists.remove_key few key
    apply lists.updates_of_removal few ran
    · intro name
      simp only [utf8_eq_iff, Call.removes]
    · exact fun _ _ => rfl
  | remove keys =>
    apply lists.updates_of_removal few rfl
    · intro name
      simp only [any_map, Function.comp_def, utf8_eq_iff, Call.removes]
    · exact fun _ _ => rfl
  | removeTwo first second =>
    apply lists.updates_of_removal few rfl
    · intro name
      by_cases same : first.text = second.text
      · simp [utf8_eq_iff, Call.removes, same]
      · simp [utf8_eq_iff, Call.removes, same]
    · exact fun _ _ => rfl

end Calls

section Runs

variable {calls : List Call}

theorem held_append (calls : List Call) (call : Call) (key : String) :
    held (calls ++ [call]) key = call.update key (held calls key) := by
  simp [held]

theorem run_lists (fits : ∀ call ∈ calls, call.Fits)
    (few : ∀ before, before <+: calls → Few (held before)) :
    ∃ fields, run calls = .ok (serialize fields) ∧ Lists fields (held calls) := by
  induction calls using List.reverseRecOn with
  | nil => exact ⟨[], rfl, nodup_nil, by simp, by simp [held]⟩
  | append_singleton calls call ih =>
    obtain ⟨fields, ran, lists⟩ := ih (fun call member => fits call (mem_append_left _ member))
      fun before isPrefix => few before (isPrefix.trans (prefix_append _ _))
    have room := lists.length_lt (few calls (prefix_append _ _))
    obtain ⟨found, next, applied, _, after⟩ := lists.updates room call
    refine ⟨next, ?_, ?_⟩
    · have step : run (calls ++ [call]) =
          run calls >>= fun data => (call.apply data).map Prod.snd := by
        simp [run]
      rw [step, ran]
      change (call.apply (serialize fields)).map Prod.snd = _
      rw [applied]
      rfl
    · have updated : held (calls ++ [call]) = fun key => call.update key (held calls key) :=
        funext (held_append calls call)
      rw [updated]
      exact after (fits call (mem_append_right _ (mem_singleton_self call)))

/-- Calls on the inline section do to it what they do to a finite map, as long as the fields stay
few and each fits its element. That the section validates is only said without the empty key,
which can be stored and found but not validated. -/
theorem inline_data_is_map (fits : ∀ call ∈ calls, call.Fits)
    (few : ∀ before, before <+: calls → Few (held before)) :
    ∃ data, run calls = .ok data ∧ (∀ key, data.find key = .ok (held calls key)) ∧
      (∃ keys : List String, keys.Nodup ∧ (∀ key, key ∈ keys ↔ (held calls key).isSome) ∧
        data.entries = .ok keys.length) ∧
      (held calls "" = none → data.validate = .ok ()) ∧
      ∀ call : Call, ∃ found next, call.apply data = .ok (found, next) ∧
        (found = true ↔ ∃ key, call.removes key ∧ (held calls key).isSome) := by
  obtain ⟨fields, ran, lists⟩ := run_lists fits few
  have room := lists.length_lt (few calls (prefix_refl calls))
  refine ⟨serialize fields, ran, lists.find room, ?_, ?_, ?_⟩
  · refine ⟨fields.map Prod.fst, lists.distinct, ?_, ?_⟩
    · intro key
      have met := lists.any_key fun name => name = key
      simpa using met
    · rw [entries_serialize room, length_map]
  · intro unnamed
    apply Written.validate
    refine ⟨fields, rfl, room, ?_⟩
    intro field member
    have within := lists.within field member
    refine ⟨?_, within.key, within.value⟩
    rw [Bool.eq_false_iff]
    intro empty
    have isHeld := (lists.entry field.1 field.2).1 member
    rw [String.isEmpty_iff.1 empty, unnamed] at isHeld
    cases isHeld
  · intro call
    obtain ⟨found, next, applied, exact, _⟩ := lists.updates room call
    exact ⟨found, _, applied, exact⟩

theorem Call.update_some {call : Call} {value : Option Bytes}
    (present : (call.update key value).isSome) : value.isSome ∨ ∃ new, call = .replace key new := by
  cases call with
  | replace name new =>
    rw [Call.update] at present
    split at present
    case isTrue same => exact .inr ⟨new, by rw [same]⟩
    case isFalse => exact .inl present
  | _ =>
    left
    simp only [Call.update] at present
    split at present
    · cases present
    · exact present

theorem held_mem (present : (held calls key).isSome) : ∃ value, .replace key value ∈ calls := by
  induction calls using List.reverseRecOn with
  | nil => cases present
  | append_singleton calls call ih =>
    rw [held_append] at present
    rcases Call.update_some present with before | ⟨new, rfl⟩
    · obtain ⟨value, member⟩ := ih before
      exact ⟨value, mem_append_left _ member⟩
    · exact ⟨new, mem_append_right _ (mem_singleton_self _)⟩

/-- A run of fewer than `2 ^ 32` calls cannot hold more keys. -/
theorem few_of_length (short : calls.length < 2 ^ 32) : Few (held calls) := by
  intro keys distinct present
  let named : Call → String
    | .replace key _ => key
    | _ => ""
  have among : keys ⊆ calls.map named := by
    intro key member
    obtain ⟨value, isCall⟩ := held_mem (present key member)
    exact mem_map.2 ⟨_, isCall, rfl⟩
  have most := (subperm_of_subset distinct among).length_le
  rw [length_map] at most
  exact Nat.lt_of_le_of_lt most short

def sampleCalls : List Call := [.replace "a" [1], .replace "b" [2], .removeKey "a"]

theorem sample_calls_map : ∃ data, run sampleCalls = .ok data ∧ data.find "b" = .ok (some [2]) ∧
    data.find "a" = .ok none := by
  have fits : ∀ call ∈ sampleCalls, call.Fits := by
    have first : FieldWithin ("a", [1]) := ⟨by decide, Nat.one_lt_two_pow (by decide)⟩
    have second : FieldWithin ("b", [2]) := ⟨by decide, Nat.one_lt_two_pow (by decide)⟩
    simp [sampleCalls, Call.Fits, first, second]
  have few : ∀ before, before <+: sampleCalls → Few (held before) := by
    intro before isPrefix
    exact few_of_length (Nat.lt_of_le_of_lt isPrefix.length_le (by decide))
  obtain ⟨data, ran, found, _⟩ := inline_data_is_map fits few
  exact ⟨data, ran, found "b", found "a"⟩

theorem repeated_length (count : Nat) :
    (utf8 (String.ofList (List.replicate count 'a'))).length = count := by
  have bytes : ∀ text : String, (utf8 text).length = text.utf8ByteSize := fun _ => rfl
  rw [bytes, String.utf8ByteSize_ofList]
  induction count with
  | zero => rfl
  | succ count ih => rw [replicate_succ, String.utf8Len_cons, ih, show 'a'.utf8Size = 1 from rfl]

/-- Keys are written at any length and read only up to the limit on an element. -/
theorem find_long_key (long : maxMsgpElementSize < (utf8 key).length)
    (short : (utf8 key).length < 2 ^ 32) (value : Bytes) :
    ∃ error, find (serialize [(key, value)]) key = .error error := by
  have bytes : [(key, value)].flatMap writeField =
      writeStrLen (utf8 key).length ++ (utf8 key ++ (writeBin value ++ [])) := by
    rw [flatMap_cons, writeField, writeMsgpString, writeStr, as_u32_eq short]
    simp only [append_assoc, flatMap_nil]
  have rejected (rest : Bytes) : ∃ error, readKey.run
      (writeStrLen (utf8 key).length ++ rest) = .error error := by
    have length := ((reads_str_len short).map_error Error.rmpDecodeValueRead) rest
    rw [readKey, valueRead, ByteReader.run_bind_ok length, readExactVec, if_pos long]
    exact ⟨_, rfl⟩
  obtain ⟨error, failed⟩ := rejected (utf8 key ++ (writeBin value ++ []))
  rw [find_serialize (Nat.one_lt_two_pow (by decide)), bytes, length_singleton, findLoop,
    ByteReader.run_bind_error failed]
  exact ⟨error, rfl⟩

theorem run_one_replace (key : String) (value : Bytes) :
    run [.replace key value] = .ok (serialize [(key, value)]) ∧
      held [.replace key value] key = some value :=
  ⟨rfl, if_pos rfl⟩

def longKey : String := String.ofList (List.replicate (maxMsgpElementSize + 1) 'a')

theorem long_key_not_read : (utf8 longKey).length < 2 ^ 32 ∧
    (∃ data, run [.replace longKey []] = .ok data ∧ ∃ error, data.find longKey = .error error) ∧
    held [.replace longKey []] longKey = some [] := by
  have length : (utf8 longKey).length = maxMsgpElementSize + 1 := repeated_length _
  have short : (utf8 longKey).length < 2 ^ 32 := by
    rw [length, maxMsgpElementSize]
    norm_num
  have long : maxMsgpElementSize < (utf8 longKey).length := by
    rw [length]
    exact Nat.lt_succ_self _
  obtain ⟨ran, isHeld⟩ := run_one_replace longKey []
  exact ⟨short, ⟨_, ran, find_long_key long short []⟩, isHeld⟩

end Runs

end InlineData

end Rustfs.Filemeta
