import Rustfs.Policy.Statement

/-!
# Context variables in patterns and conditions

`str::replace` for words that open with a dollar sign, close with a brace and have neither
between. Two such words in a text are the same or apart, so a word is left alone by the
replacement of another one, and a text without the two signs can only complete a word that it is
put into the middle of.

With it, what the values of a request do to a resource pattern and to a string condition. Over
values without special signs the one replacement by every key in turn is a single substitution;
the conditions are compared under the first values of the keys only. Variables of the resolver,
which are expanded before, are not part of this module.
-/

namespace Rustfs.Policy

open List Option Variables Wildcard Library.ShortCircuit

variable {byte : UInt8} {rest middle : Str} {key : KeyName}

section Equations

variable {needle value : Str}

theorem replace_from_skip (skip : Nat) (text : Str) :
    replaceFrom needle value skip text = replace (text.drop skip) needle value := by
  induction text generalizing skip with
  | nil =>
    cases skip with
    | zero => rfl
    | succ skip => rfl
  | cons byte text ih =>
    cases skip with
    | zero => rfl
    | succ skip => exact ih skip

theorem replace_step (different : ¬ needle <+: byte :: rest) :
    replace (byte :: rest) needle value = byte :: replace rest needle value := by
  rw [← List.isPrefixOf_iff_prefix] at different
  unfold replace
  rw [replaceFrom, if_neg different]

theorem replace_found (nonempty : needle ≠ []) (rest : Str) :
    replace (needle ++ rest) needle value = value ++ replace rest needle value := by
  cases needle with
  | nil => exact absurd rfl nonempty
  | cons byte word =>
    unfold replace
    rw [cons_append, replaceFrom, if_pos (by simp), replace_from_skip]
    simp [replace]

end Equations

def Bracketed (word : Str) : Prop :=
  ∃ inner, word = dollar :: (inner ++ [closeBrace]) ∧ dollar ∉ inner ∧ closeBrace ∉ inner

/-- A text with neither of the two signs. -/
def Unsigned (text : Str) : Prop := dollar ∉ text ∧ closeBrace ∉ text

section Words

variable {needle value word : Str}

section

variable (bracketed : Bracketed word)

include bracketed

theorem Bracketed.ne_nil : word ≠ [] := by
  obtain ⟨inner, rfl, _, _⟩ := bracketed
  exact cons_ne_nil _ _

theorem Bracketed.head_not_prefix (other : byte ≠ dollar) : ¬ word <+: byte :: rest := by
  obtain ⟨inner, rfl, _, _⟩ := bracketed
  intro isPrefix
  exact other (cons_prefix_cons.1 isPrefix).1.symm

theorem Bracketed.front {front back : Str} (same : word = front ++ back)
    (more : back ≠ []) : closeBrace ∉ front := by
  obtain ⟨inner, rfl, _, notClosed⟩ := bracketed
  obtain ⟨back, last, rfl⟩ := eq_nil_or_concat' back |>.resolve_left more
  rw [← append_assoc, ← cons_append] at same
  obtain ⟨whole, _⟩ := append_inj' same rfl
  intro member
  have inside : closeBrace ∈ dollar :: inner := by
    rw [whole]
    exact mem_append_left _ member
  rcases mem_cons.1 inside with sign | inInner
  · cases sign
  · exact notClosed inInner

theorem Bracketed.back {front back : Str} (same : word = front ++ back)
    (more : front ≠ []) : dollar ∉ back := by
  obtain ⟨inner, rfl, notOpened, _⟩ := bracketed
  cases front with
  | nil => exact absurd rfl more
  | cons byte front =>
    have rest : inner ++ [closeBrace] = front ++ back := (List.cons.inj same).2
    intro member
    have inside : dollar ∈ inner ++ [closeBrace] := by
      rw [rest]
      exact mem_append_right _ member
    rcases mem_append.1 inside with inInner | sign
    · exact notOpened inInner
    · cases mem_singleton.1 sign

theorem Bracketed.closes : closeBrace ∈ word := by
  obtain ⟨inner, rfl, _, _⟩ := bracketed
  simp

theorem Bracketed.opens : ∃ rest, word = dollar :: rest := by
  obtain ⟨inner, rfl, _, _⟩ := bracketed
  exact ⟨_, rfl⟩

end

theorem Bracketed.eq_of_prefix (bracketed : Bracketed needle) (other : Bracketed word)
    (isPrefix : needle <+: word ++ rest) : needle = word := by
  obtain ⟨tail, same⟩ := isPrefix
  rcases append_eq_append_iff.1 same with ⟨middle, isWord, _⟩ | ⟨middle, isNeedle, _⟩
  · by_contra different
    have more : middle ≠ [] := by
      rintro rfl
      exact different (by simpa using isWord.symm)
    exact other.front isWord more bracketed.closes
  · by_contra different
    have more : middle ≠ [] := by
      rintro rfl
      exact different (by simpa using isNeedle)
    exact bracketed.front isNeedle more other.closes

theorem prefix_cases {front : Str} (isPrefix : needle <+: front ++ rest) :
    (∃ later, front = needle ++ later) ∨
      ∃ reach, reach ≠ [] ∧ needle = front ++ reach ∧ ∃ later, rest = reach ++ later := by
  obtain ⟨tail, same⟩ := isPrefix
  rcases append_eq_append_iff.1 same with ⟨later, isFront, _⟩ | ⟨reach, isNeedle, isRest⟩
  · exact .inl ⟨later, isFront⟩
  · cases reach with
    | nil => exact .inl ⟨[], by simpa using isNeedle.symm⟩
    | cons byte reach => exact .inr ⟨byte :: reach, cons_ne_nil _ _, isNeedle, tail, isRest⟩

theorem front_induction {motive : Str → Prop} (nil : motive [])
    (cons : ∀ byte front, (∀ shorter : Str, shorter.length ≤ front.length → motive shorter) →
      motive (byte :: front)) (front : Str) : motive front := by
  have bounded : ∀ size (text : Str), text.length ≤ size → motive text := by
    intro size
    induction size with
    | zero =>
      intro text short
      rw [length_eq_zero_iff.1 (Nat.le_zero.1 short)]
      exact nil
    | succ size ih =>
      intro text short
      cases text with
      | nil => exact nil
      | cons byte text =>
        rw [length_cons] at short
        exact cons byte text fun shorter less => ih shorter (by omega)
  exact bounded front.length front (Nat.le_refl _)

theorem replace_round (value : Str) {front : Str} (apart : ¬ needle <+: byte :: front ++ rest) :
    replace (byte :: front ++ rest) needle value = byte :: replace (front ++ rest) needle value ∧
      replace (byte :: front) needle value = byte :: replace front needle value := by
  constructor
  · exact replace_step apart
  · apply replace_step
    intro isPrefix
    exact apart (isPrefix.trans (prefix_append _ _))

variable (bracketed : Bracketed needle)

include bracketed

theorem replace_word (later rest : Str) :
    replace (needle ++ later ++ rest) needle value =
      value ++ replace (later ++ rest) needle value ∧
      replace (needle ++ later) needle value = value ++ replace later needle value := by
  constructor
  · rw [append_assoc]
    exact replace_found bracketed.ne_nil _
  · exact replace_found bracketed.ne_nil _

theorem shorter_behind {front later : Str} (same : byte :: front = needle ++ later) :
    later.length ≤ front.length := by
  obtain ⟨rest, rfl⟩ := bracketed.opens
  have lengths := congrArg List.length same
  simp only [length_cons, length_append] at lengths
  omega

theorem replace_unopened {front : Str} (unopened : dollar ∉ front) (rest : Str) :
    replace (front ++ rest) needle value = front ++ replace rest needle value := by
  induction front with
  | nil => rfl
  | cons byte front ih =>
    rw [mem_cons, not_or] at unopened
    rw [cons_append, replace_step (bracketed.head_not_prefix (Ne.symm unopened.1)), ih unopened.2]
    rfl

theorem not_prefix_unclosed {text : Str} (unclosed : closeBrace ∉ text) : ¬ needle <+: text :=
  fun isPrefix => unclosed (isPrefix.subset bracketed.closes)

theorem replace_unclosed {back : Str} (unclosed : closeBrace ∉ back) (front : Str) :
    replace (front ++ back) needle value = replace front needle value ++ back := by
  induction front using front_induction with
  | nil =>
    induction back with
    | nil => rfl
    | cons byte back ih =>
      have tail := ih fun member => unclosed (mem_cons_of_mem _ member)
      rw [nil_append] at tail ⊢
      rw [replace_step (not_prefix_unclosed bracketed unclosed), tail]
      rfl
  | cons byte front ih =>
    by_cases isPrefix : needle <+: byte :: front ++ back
    · rcases prefix_cases isPrefix with ⟨later, same⟩ | ⟨reach, more, same, later, isBack⟩
      · rw [same, (replace_word bracketed later back).1, (replace_word bracketed later back).2,
          ih later (shorter_behind bracketed same), append_assoc]
      · have closes := bracketed.closes
        rw [same] at closes
        rcases mem_append.1 closes with early | late
        · exact absurd early (bracketed.front same more)
        · exact absurd (isBack ▸ mem_append_left later late) unclosed
    · obtain ⟨whole, alone⟩ := replace_round value isPrefix
      rw [whole, alone, ih front (Nat.le_refl _), cons_append]

theorem replace_other_word {word : Str} (other : Bracketed word) (different : needle ≠ word)
    (front back : Str) :
    replace (front ++ (word ++ back)) needle value =
      replace front needle value ++ (word ++ replace back needle value) := by
  induction front using front_induction with
  | nil =>
    have apart : ¬ needle <+: word ++ back := fun isPrefix =>
      different (bracketed.eq_of_prefix other isPrefix)
    obtain ⟨rest, isWord⟩ := other.opens
    have unopened : dollar ∉ rest :=
      other.back (show word = [dollar] ++ rest from isWord) (cons_ne_nil _ _)
    rw [isWord, cons_append] at apart
    rw [isWord, nil_append, cons_append, replace_step apart, replace_unopened bracketed unopened]
    rfl
  | cons byte front ih =>
    by_cases isPrefix : needle <+: byte :: front ++ (word ++ back)
    · rcases prefix_cases isPrefix with ⟨later, same⟩ | ⟨reach, more, same, later, isBack⟩
      · rw [same, (replace_word bracketed later _).1, (replace_word bracketed later back).2,
          ih later (shorter_behind bracketed same), append_assoc]
      · obtain ⟨rest, isWord⟩ := other.opens
        obtain ⟨first, reach, rfl⟩ := exists_cons_of_ne_nil more
        rw [isWord, cons_append, cons_append] at isBack
        have isDollar : first = dollar := (List.cons.inj isBack).1.symm
        have unopened := bracketed.back same (cons_ne_nil _ _)
        exact absurd (isDollar ▸ mem_cons_self) unopened
    · obtain ⟨whole, alone⟩ := replace_round value isPrefix
      rw [whole, alone, ih front (Nat.le_refl _), cons_append]

theorem replace_unsigned (unsigned : Unsigned middle) (front back : Str) :
    replace (front ++ (middle ++ back)) needle value =
        replace front needle value ++ (middle ++ replace back needle value) ∨
      ∃ before opened closed after, front = before ++ opened ∧ back = closed ++ after ∧
        closeBrace ∉ opened ∧ dollar ∉ closed ∧
        replace (front ++ (middle ++ back)) needle value =
          replace before needle value ++ (value ++ replace after needle value) := by
  induction front using front_induction with
  | nil =>
    refine .inl ?_
    rw [nil_append, replace_unopened bracketed unsigned.1]
    rfl
  | cons byte front ih =>
    by_cases isPrefix : needle <+: byte :: front ++ (middle ++ back)
    · rcases prefix_cases isPrefix with ⟨later, same⟩ | ⟨reach, more, same, later, isBack⟩
      · rw [same, (replace_word bracketed later _).1, (replace_word bracketed later back).2]
        rcases ih later (shorter_behind bracketed same) with apart |
            ⟨before, opened, closed, after, isLater, isBack, unclosed, unopened, replaced⟩
        · refine .inl ?_
          rw [apart, append_assoc]
        · refine .inr ⟨needle ++ before, opened, closed, after, ?_, isBack, unclosed, unopened, ?_⟩
          · rw [isLater, append_assoc]
          · rw [replaced, (replace_word bracketed before back).2, append_assoc]
      · refine .inr ?_
        have unclosed := bracketed.front same more
        have reaches : closeBrace ∈ reach := by
          have closes := bracketed.closes
          rw [same] at closes
          exact (mem_append.1 closes).resolve_left unclosed
        rcases append_eq_append_iff.1 isBack with ⟨closed, isReach, isBack⟩ | ⟨_, isMiddle, _⟩
        · refine ⟨[], byte :: front, closed, later, rfl, isBack, unclosed, ?_, ?_⟩
          · intro member
            apply bracketed.back same (cons_ne_nil _ _)
            rw [isReach]
            exact mem_append_right _ member
          · have whole : byte :: front ++ (middle ++ back) = needle ++ later := by
              rw [isBack, same, isReach]
              simp only [append_assoc]
            rw [whole]
            exact replace_found bracketed.ne_nil later
        · exact absurd (isMiddle ▸ mem_append_left _ reaches) unsigned.2
    · obtain ⟨whole, alone⟩ := replace_round value isPrefix
      rw [whole, alone]
      rcases ih front (Nat.le_refl _) with apart |
          ⟨before, opened, closed, after, isFront, isBack, unclosed, unopened, replaced⟩
      · refine .inl ?_
        rw [apart, cons_append]
      · refine .inr ⟨byte :: before, opened, closed, after, ?_, isBack, unclosed, unopened, ?_⟩
        · rw [isFront, cons_append]
        · have beforeAlone : replace (byte :: before) needle value =
              byte :: replace before needle value := by
            apply replace_step
            intro isWord
            apply isPrefix
            rw [isFront]
            exact isWord.trans ⟨opened ++ (middle ++ back), by simp⟩
          rw [replaced, beforeAlone, cons_append]

end Words

section Each

/-- The replacements in their order, each of a word by a value. -/
def replaceEach (replacements : List (Str × Str)) (text : Str) : Str :=
  replacements.foldl (fun text pair => replace text pair.1 pair.2) text

def WordsByTexts (replacements : List (Str × Str)) : Prop :=
  ∀ pair ∈ replacements, Bracketed pair.1 ∧ Unsigned pair.2

variable {replacements : List (Str × Str)} (sound : WordsByTexts replacements)

include sound

theorem replace_each_unopened {front : Str} (unopened : dollar ∉ front) (rest : Str) :
    replaceEach replacements (front ++ rest) = front ++ replaceEach replacements rest := by
  induction replacements generalizing rest with
  | nil => rfl
  | cons pair replacements ih =>
    obtain ⟨⟨bracketed, _⟩, others⟩ := forall_mem_cons.1 sound
    change replaceEach replacements (replace (front ++ rest) pair.1 pair.2) = _
    rw [replace_unopened bracketed unopened]
    exact ih others _

theorem replace_each_unclosed {back : Str} (unclosed : closeBrace ∉ back) (front : Str) :
    replaceEach replacements (front ++ back) = replaceEach replacements front ++ back := by
  induction replacements generalizing front with
  | nil => rfl
  | cons pair replacements ih =>
    obtain ⟨⟨bracketed, _⟩, others⟩ := forall_mem_cons.1 sound
    change replaceEach replacements (replace (front ++ back) pair.1 pair.2) = _
    rw [replace_unclosed bracketed unclosed]
    exact ih others _

theorem replace_each_other_word {word : Str} (other : Bracketed word)
    (different : ∀ pair ∈ replacements, pair.1 ≠ word) (front back : Str) :
    replaceEach replacements (front ++ (word ++ back)) =
      replaceEach replacements front ++ (word ++ replaceEach replacements back) := by
  induction replacements generalizing front back with
  | nil => rfl
  | cons pair replacements ih =>
    obtain ⟨⟨bracketed, _⟩, others⟩ := forall_mem_cons.1 sound
    obtain ⟨thisOther, restOther⟩ := forall_mem_cons.1 different
    change replaceEach replacements (replace (front ++ (word ++ back)) pair.1 pair.2) = _
    rw [replace_other_word bracketed other thisOther]
    exact ih others restOther _ _

theorem replace_each_unsigned (unsigned : Unsigned middle) (front back : Str) :
    (replaceEach replacements (front ++ (middle ++ back))).count dollar ≤
      (replaceEach replacements front).count dollar +
        (replaceEach replacements back).count dollar := by
  induction replacements generalizing front middle back with
  | nil =>
    change (front ++ (middle ++ back)).count dollar ≤ front.count dollar + back.count dollar
    rw [List.count_append, List.count_append, count_eq_zero.2 unsigned.1]
    omega
  | cons pair replacements ih =>
    obtain ⟨⟨bracketed, plain⟩, others⟩ := forall_mem_cons.1 sound
    change (replaceEach replacements (replace (front ++ (middle ++ back)) pair.1 pair.2)).count
        dollar ≤ (replaceEach replacements (replace front pair.1 pair.2)).count dollar +
      (replaceEach replacements (replace back pair.1 pair.2)).count dollar
    rcases replace_unsigned bracketed unsigned front back with apart |
        ⟨before, opened, closed, after, rfl, rfl, unclosed, unopened, replaced⟩
    · rw [apart]
      exact ih others unsigned _ _
    · -- the word that the text completes is gone, with the sign that opened it
      rw [replaced, replace_unclosed bracketed unclosed, replace_unopened bracketed unopened,
        replace_each_unclosed others unclosed, replace_each_unopened others unopened,
        List.count_append, List.count_append]
      have shorter := ih others plain (replace before pair.1 pair.2) (replace after pair.1 pair.2)
      omega

end Each

/-- A key as a policy writes it. -/
def KeyName.marker (key : KeyName) : Str := str "$\x7b" ++ str key.text ++ str "\x7d"

def presentMarker (values : ConditionValues) (text : Str) : Option (Str × Str) :=
  KeyName.commonKeys.findSome? fun key =>
    (firstValue values key).bind fun value =>
      if key.marker.isPrefixOf text then some (key.marker, value) else none

def substituteFrom (values : ConditionValues) : (skip : Nat) → Str → Str
  | _, [] => []
  | skip + 1, _ :: rest => substituteFrom values skip rest
  | 0, byte :: rest =>
    match presentMarker values (byte :: rest) with
    | some (marker, value) => value ++ substituteFrom values (marker.length - 1) rest
    | none => byte :: substituteFrom values 0 rest

/-- The text with the first value of its key in the place of every marker. -/
def substitute (values : ConditionValues) (text : Str) : Str := substituteFrom values 0 text

def Marked (values : ConditionValues) (text : Str) : Prop :=
  ∃ key ∈ KeyName.commonKeys, (firstValue values key).isSome = true ∧ key.marker <:+: text

/-- The characters of wildcards and variables. -/
def isSpecial (byte : UInt8) : Bool :=
  byte = star || byte = questionMark || byte = dollar || byte = openBrace || byte = closeBrace

/-- The values of the common keys have no special characters, so that none of them can
be taken for a wildcard or for a part of a variable. -/
def PlainValues (values : ConditionValues) : Prop :=
  ∀ key ∈ KeyName.commonKeys, ∀ value, firstValue values key = some value →
    ∀ byte ∈ value, isSpecial byte = false

theorem marker_bracketed (common : key ∈ KeyName.commonKeys) : Bracketed key.marker := by
  have plain : ∀ key ∈ KeyName.commonKeys, dollar ∉ openBrace :: str key.text ∧
      closeBrace ∉ openBrace :: str key.text := by decide
  exact ⟨openBrace :: str key.text, rfl, plain key common⟩

theorem var_name_bracketed (common : key ∈ KeyName.commonKeys) : Bracketed key.varName := by
  have plain : ∀ key ∈ KeyName.commonKeys,
      dollar ∉ openBrace :: (str key.namespaceText ++ str key.text) ∧
      closeBrace ∉ openBrace :: (str key.namespaceText ++ str key.text) := by decide
  refine ⟨openBrace :: (str key.namespaceText ++ str key.text), ?_, plain key common⟩
  rfl

theorem var_name_ne_marker {other : KeyName} (common : key ∈ KeyName.commonKeys)
    (otherCommon : other ∈ KeyName.commonKeys) : key.varName ≠ other.marker := by
  have different : ∀ key ∈ KeyName.commonKeys, ∀ other ∈ KeyName.commonKeys,
      key.varName ≠ other.marker := by decide
  exact different key common other otherCommon

def presentKeys (values : ConditionValues) (keys : List KeyName) : List (Str × Str) :=
  keys.filterMap fun key => (firstValue values key).map fun value => (key.varName, value)

theorem replace_keys_eq (values : ConditionValues) (keys : List KeyName) (text : Str) :
    keys.foldl (replaceKey values) text = replaceEach (presentKeys values keys) text := by
  induction keys generalizing text with
  | nil => rfl
  | cons key keys ih =>
    rw [foldl_cons, ih]
    unfold presentKeys replaceKey
    rw [filterMap_cons]
    cases firstValue values key with
    | none => rfl
    | some value => rfl

theorem replace_common_keys_eq (values : ConditionValues) (text : Str) :
    replaceCommonKeys values text = replaceEach (presentKeys values KeyName.commonKeys) text :=
  replace_keys_eq values KeyName.commonKeys text

theorem replace_first_key_eq (values : ConditionValues) (text : Str) :
    replaceFirstKey values text =
      replaceEach ((presentKeys values KeyName.commonKeys).take 1) text := by
  unfold replaceFirstKey
  induction KeyName.commonKeys with
  | nil => rfl
  | cons key keys ih =>
    unfold presentKeys at ih ⊢
    rw [find?_cons, filterMap_cons]
    cases found : firstValue values key with
    | none => exact ih
    | some value =>
      dsimp only [isSome_some, map_some]
      unfold replaceKey
      rw [found]
      rfl

section Plain

variable {values : ConditionValues} (plain : PlainValues values) {replacements : List (Str × Str)}

include plain

theorem present_keys_sound
    (known : replacements ⊆ presentKeys values KeyName.commonKeys) : WordsByTexts replacements := by
  intro pair member
  obtain ⟨key, common, present⟩ := mem_filterMap.1 (known member)
  obtain ⟨value, isFirst, rfl⟩ := map_eq_some_iff.1 present
  have bytes := plain key common value isFirst
  refine ⟨var_name_bracketed common, ?_, ?_⟩
  · intro inValue
    exact absurd (bytes dollar inValue) (by decide)
  · intro inValue
    exact absurd (bytes closeBrace inValue) (by decide)

omit plain in
theorem present_keys_ne_marker
    (known : replacements ⊆ presentKeys values KeyName.commonKeys) {other : KeyName}
    (otherCommon : other ∈ KeyName.commonKeys) : ∀ pair ∈ replacements, pair.1 ≠ other.marker := by
  intro pair member
  obtain ⟨key, common, present⟩ := mem_filterMap.1 (known member)
  obtain ⟨value, _, rfl⟩ := map_eq_some_iff.1 present
  exact var_name_ne_marker common otherCommon

omit plain in
theorem substitute_from_skip (skip : Nat) (text : Str) :
    substituteFrom values skip text = substitute values (text.drop skip) := by
  induction text generalizing skip with
  | nil =>
    cases skip with
    | zero => rfl
    | succ skip => rfl
  | cons byte text ih =>
    cases skip with
    | zero => rfl
    | succ skip => exact ih skip

theorem substitute_cases (byte : UInt8) (rest : Str) :
    (∃ key ∈ KeyName.commonKeys, ∃ value later, Unsigned value ∧
      byte :: rest = key.marker ++ later ∧
      substitute values (byte :: rest) = value ++ substitute values later) ∨
    ((Marked values (byte :: rest) → Marked values rest) ∧
      substitute values (byte :: rest) = byte :: substitute values rest) := by
  unfold substitute
  rw [substituteFrom]
  cases found : presentMarker values (byte :: rest) with
  | some pair =>
    refine .inl ?_
    obtain ⟨key, common, present⟩ := exists_of_findSome?_eq_some found
    obtain ⟨value, isFirst, present⟩ := bind_eq_some_iff.1 present
    split at present
    · rename_i isPrefix
      cases present
      obtain ⟨later, same⟩ := List.isPrefixOf_iff_prefix.1 isPrefix
      have bytes := plain key common value isFirst
      refine ⟨key, common, value, later, ⟨?_, ?_⟩, same.symm, ?_⟩
      · intro inValue
        exact absurd (bytes dollar inValue) (by decide)
      · intro inValue
        exact absurd (bytes closeBrace inValue) (by decide)
      · obtain ⟨word, isWord⟩ := (marker_bracketed common).opens
        rw [isWord] at same ⊢
        obtain ⟨_, isRest⟩ := List.cons.inj same
        dsimp only
        rw [length_cons, Nat.add_sub_cancel, substitute_from_skip word.length, ← isRest]
        change value ++ substitute values ((word ++ later).drop word.length) = _
        rw [drop_left]
        rfl
    · cases present
  | none =>
    refine .inr ⟨?_, rfl⟩
    intro marked
    obtain ⟨key, common, present, inside⟩ := marked
    refine ⟨key, common, present, ?_⟩
    rcases infix_cons_iff.1 inside with isPrefix | later
    · have unmatched := findSome?_eq_none_iff.1 found key common
      obtain ⟨value, isFirst⟩ := isSome_iff_exists.1 present
      rw [isFirst, bind_some, if_pos (List.isPrefixOf_iff_prefix.2 isPrefix)] at unmatched
      cases unmatched
    · exact later

/-- The text with the values is left with no more dollar signs, and with fewer if there
was a marker. -/
theorem substitute_signs
    (known : replacements ⊆ presentKeys values KeyName.commonKeys) (front text : Str) :
    (replaceEach replacements (front ++ substitute values text)).count dollar ≤
        (replaceEach replacements (front ++ text)).count dollar ∧
      (Marked values text →
        (replaceEach replacements (front ++ substitute values text)).count dollar <
          (replaceEach replacements (front ++ text)).count dollar) := by
  have sound := present_keys_sound plain known
  induction text using front_induction generalizing front with
  | nil =>
    refine ⟨Nat.le_refl _, ?_⟩
    intro marked
    obtain ⟨key, common, _, inside⟩ := marked
    exact absurd (infix_nil.1 inside) (marker_bracketed common).ne_nil
  | cons byte text ih =>
    rcases substitute_cases plain byte text with
      ⟨key, common, value, later, unsigned, same, substituted⟩ | ⟨marked, substituted⟩
    · have bracketed := marker_bracketed common
      have opened : 0 < key.marker.count dollar := by
        obtain ⟨rest, isMarker⟩ := bracketed.opens
        rw [isMarker]
        simp
      have less := (ih later (shorter_behind bracketed same) []).1
      have added := replace_each_unsigned sound unsigned front (substitute values later)
      rw [nil_append, nil_append] at less
      rw [substituted, same,
        replace_each_other_word sound bracketed (present_keys_ne_marker known common),
        List.count_append, List.count_append]
      exact ⟨by omega, fun _ => by omega⟩
    · have next := ih text (Nat.le_refl _) (front ++ [byte])
      rw [substituted]
      simp only [append_assoc, singleton_append] at next
      exact ⟨next.1, fun isMarked => next.2 (marked isMarked)⟩

end Plain

def SameFirstValues (values other : ConditionValues) : Prop :=
  ∀ key ∈ KeyName.commonKeys, firstValue other key = firstValue values key

def valueCondition (operator : StringOperator) (key : Key) (text : Str) : Functions :=
  ⟨[], [], [.string operator [⟨key, [text]⟩]]⟩

def Resource.substituted (values : ConditionValues) : Resource → Resource
  | .s3 pattern => .s3 (substitute values pattern)
  | .kms pattern => .kms (substitute values pattern)

section Conditions

variable {values other : ConditionValues} {parsers : Parsers} {fuel : Nat} {key : Key} {text : Str}
  {requested : List Str}

theorem present_keys_congr (same : SameFirstValues values other) :
    presentKeys other KeyName.commonKeys = presentKeys values KeyName.commonKeys := by
  apply filterMap_congr
  intro key common
  rw [same key common]

theorem replace_first_key_congr (same : SameFirstValues values other) (text : Str) :
    replaceFirstKey other text = replaceFirstKey values text := by
  rw [replace_first_key_eq, replace_first_key_eq, present_keys_congr same]

theorem value_condition_eq (operator : StringOperator) :
    (valueCondition operator key text).evaluateWithResolver parsers fuel values none =
      StringFunc.evaluateKey parsers fuel .none operator.ignoreCase operator.like operator.negate
        values none ⟨key, [text]⟩ := by
  change [(Quantifier.none, Condition.string operator [⟨key, [text]⟩])].allM _ = _
  rw [all_m_single]
  exact all_m_single _ _

theorem equals_condition (known : values.lookup key.mapKey = some requested) :
    (valueCondition .stringEquals key text).evaluateWithResolver parsers fuel values none =
      some (requested.any fun value => [replaceFirstKey values text].contains value) := by
  rw [value_condition_eq]
  change (StringFunc.eval parsers fuel .none false false values none ⟨key, [text]⟩).map (· ^^ false) = _
  have unfolded : StringFunc.fold parsers false = id := rfl
  unfold StringFunc.eval
  rw [known, unfolded, List.map_id]
  exact congrArg some (Bool.xor_false _)

theorem like_loop_any (patterns requested : List Str) :
    StringFunc.likeLoop .none false (some patterns) requested =
      some (requested.any fun value => patterns.any fun pattern => isMatch pattern value) := by
  induction requested with
  | nil => rfl
  | cons value requested ih =>
    rw [StringFunc.likeLoop, any_cons, if_pos rfl, if_neg (by decide)]
    cases patterns.any fun pattern => isMatch pattern value with
    | true => rfl
    | false => exact ih

theorem like_condition (known : values.lookup key.mapKey = some requested) :
    (valueCondition .stringLike key text).evaluateWithResolver parsers fuel values none =
      some (requested.any fun value => isMatch (replaceFirstKey values text) value) := by
  rw [value_condition_eq]
  change (StringFunc.evalLike fuel .none false values none ⟨key, [text]⟩).map (· ^^ false) = _
  have found : StringFunc.patterns fuel values none ⟨key, [text]⟩ =
    some [replaceFirstKey values text] := rfl
  unfold StringFunc.evalLike
  rw [known, found]
  dsimp only
  rw [like_loop_any, map_some, Bool.xor_false]
  simp

end Conditions

section Told

variable {values : ConditionValues} {key : Key} {text : Str} (plain : PlainValues values)
  (marked : Marked values text)

def keptValue (values : ConditionValues) (key : Key) : Str :=
  match (values.lookup key.mapKey).bind List.head? with
  | some value => if dollar ∈ value then [] else value
  | none => []

def withValue (values : ConditionValues) (key : Key) (value : Str) : ConditionValues :=
  (key.mapKey, [keptValue values key, value]) :: values

theorem kept_unsigned (values : ConditionValues) (key : Key) : dollar ∉ keptValue values key := by
  unfold keptValue
  cases (values.lookup key.mapKey).bind List.head? with
  | none => exact not_mem_nil
  | some value =>
    dsimp only
    split
    · exact not_mem_nil
    · rename_i unsigned
      exact unsigned

theorem with_value_lookup (values : ConditionValues) (key : Key) (value : Str) :
    (withValue values key value).lookup key.mapKey = some [keptValue values key, value] := by
  unfold withValue
  rw [lookup_cons, beq_self_eq_true]

theorem with_value_same (plain : PlainValues values) (key : Key) (value : Str) :
    SameFirstValues values (withValue values key value) := by
  intro common isCommon
  have bytes := plain common isCommon
  unfold firstValue at bytes ⊢
  unfold withValue
  rw [lookup_cons]
  cases same : common.name == key.mapKey with
  | false => rfl
  | true =>
    rw [eq_of_beq same] at bytes ⊢
    rw [bind_some, head?_cons]
    unfold keptValue
    cases isFirst : (values.lookup key.mapKey).bind List.head? with
    | none => rfl
    | some first =>
      rw [isFirst] at bytes
      dsimp only at bytes ⊢
      have unsigned : dollar ∉ first := by
        intro signed
        have filled : ¬ first.isEmpty = true := by
          simpa using ne_nil_of_mem signed
        rw [if_neg filled] at bytes
        exact absurd (bytes first rfl dollar signed) (by decide)
      simp only [if_neg unsigned]

include plain marked

theorem first_key_signs :
    (replaceFirstKey values (substitute values text)).count dollar <
      (replaceFirstKey values text).count dollar := by
  have signs := (substitute_signs plain (take_subset 1 _) [] text).2 marked
  rwa [replace_first_key_eq, replace_first_key_eq]

theorem common_keys_signs :
    (replaceCommonKeys values (substitute values text)).count dollar <
      (replaceCommonKeys values text).count dollar := by
  have signs := (substitute_signs plain (List.Subset.refl _) [] text).2 marked
  rwa [replace_common_keys_eq, replace_common_keys_eq]

theorem left_covers_neither :
    ∀ value ∈ [keptValue values key, replaceFirstKey values (substitute values text)],
      ¬ Covers (replaceFirstKey values text) value := by
  intro value member covered
  have more := first_key_signs plain marked
  have literal : dollar ≠ star ∧ dollar ≠ questionMark := by decide
  have less := covers_count literal covered
  rcases mem_pair.1 member with rfl | rfl
  · rw [count_eq_zero.2 (kept_unsigned values key)] at less
    omega
  · omega

theorem condition_differs (parsers : Parsers) (fuel : Nat) (key : Key) {operator : StringOperator}
    (known : operator = .stringEquals ∨ operator = .stringLike) :
    ∃ other, SameFirstValues values other ∧
      (valueCondition operator key text).evaluateWithResolver parsers fuel other none =
        some false ∧
      (valueCondition operator key (substitute values text)).evaluateWithResolver parsers fuel other
        none = some true := by
  have same := with_value_same plain key (replaceFirstKey values (substitute values text))
  have found := with_value_lookup values key (replaceFirstKey values (substitute values text))
  have apart := @left_covers_neither _ key _ plain marked
  refine ⟨_, same, ?_⟩
  rcases known with rfl | rfl
  · rw [equals_condition found, equals_condition found, replace_first_key_congr same,
      replace_first_key_congr same]
    constructor
    · apply congrArg some
      rw [List.any_eq_false]
      intro value member isText
      have equal : value = replaceFirstKey values text := by simpa using isText
      exact apart value member (equal ▸ covers_self _)
    · simp
  · rw [like_condition found, like_condition found, replace_first_key_congr same,
      replace_first_key_congr same]
    constructor
    · apply congrArg some
      rw [List.any_eq_false]
      intro value member matched
      exact apart value member ((is_match_iff _ _).1 matched)
    · have own := (is_match_iff (replaceFirstKey values (substitute values text)) _).2 (covers_self _)
      simp [own]

end Told

section Patterns

variable {values : ConditionValues} {text request : Str} (plain : PlainValues values)
  (marked : Marked values text)

theorem Resource.is_match_values (self : Resource) :
    self.isMatch request values = true ↔ Path.clean request ≠ str "." ∧
      Covers (replaceCommonKeys values self.pattern) (Path.clean request) := by
  have unchanged : ∀ text, replaceCommonKeys [] text = text := by
    intro text
    rfl
  unfold Resource.isMatch
  rw [Resource.accepts_path_iff]
  cases values with
  | nil => rw [unchanged]; rfl
  | cons value values => rfl

theorem Resource.substituted_pattern (self : Resource) :
    (self.substituted values).pattern = substitute values self.pattern := by
  cases self with
  | s3 pattern => rfl
  | kms pattern => rfl

/-- No cleaned path is matched by what is left of the text after the common keys were
replaced. The path of the empty request is never matched and is left out. -/
def MatchesNothing (values : ConditionValues) (text : Str) : Prop :=
  ∀ request, Path.clean request ≠ str "." →
    ¬ Covers (replaceCommonKeys values text) (Path.clean request)

include plain marked

/-- A path that the text with the values covers can be chosen so that the text that is
left does not cover it. -/
theorem path_told_apart (present : Path.clean request ≠ str ".")
    (covered : Covers (replaceCommonKeys values (substitute values text)) (Path.clean request)) :
    ∃ path, Path.clean path ≠ str "." ∧
      Covers (replaceCommonKeys values (substitute values text)) (Path.clean path) ∧
      ¬ Covers (replaceCommonKeys values text) (Path.clean path) := by
  have similar : ∀ byte, Path.Similar byte byte := fun byte => ⟨Iff.rfl, Iff.rfl⟩
  have swapped : Path.Similar openBrace dollar := by
    unfold Path.Similar
    decide
  have literal : dollar ≠ star ∧ dollar ≠ questionMark := by decide
  have different : openBrace ≠ dollar := by decide
  obtain ⟨path, alike, counted, stays⟩ := covers_lowered literal different similar swapped covered
  obtain ⟨cleaned, notDot⟩ := Path.clean_similar present alike
  refine ⟨path, ?_, ?_, ?_⟩
  · rw [cleaned]
    exact notDot
  · rw [cleaned]
    exact stays
  · rw [cleaned]
    intro left
    have less := covers_count literal left
    have more := common_keys_signs plain marked
    omega

end Patterns

/-- A resource pattern with a marker matches what the pattern with the values matches
just where the two match nothing, and a condition with a marker in its value is always
told apart from the one with the values. -/
theorem markers_stay_iff (values : ConditionValues) (plain : PlainValues values) :
    (∀ self : Resource, Marked values self.pattern →
      ((∀ request, self.isMatch request values = (self.substituted values).isMatch request values) ↔
        MatchesNothing values self.pattern ∧
          MatchesNothing values (substitute values self.pattern))) ∧
    (∀ (parsers : Parsers) (fuel : Nat) (operator : StringOperator) (key : Key) (text : Str),
      operator = .stringEquals ∨ operator = .stringLike → Marked values text →
      ¬ ∀ other, SameFirstValues values other →
        (valueCondition operator key text).evaluateWithResolver parsers fuel other none =
          (valueCondition operator key (substitute values text)).evaluateWithResolver parsers fuel
            other none) := by
  constructor
  · intro self marked
    constructor
    · intro same
      have agree : ∀ request, Path.clean request ≠ str "." →
          (Covers (replaceCommonKeys values self.pattern) (Path.clean request) ↔
            Covers (replaceCommonKeys values (substitute values self.pattern))
              (Path.clean request)) := by
        intro request present
        have both := Bool.eq_iff_iff.1 (same request)
        rw [Resource.is_match_values, Resource.is_match_values, Resource.substituted_pattern] at both
        exact and_congr_right_iff.1 both present
      have nothing : MatchesNothing values (substitute values self.pattern) := by
        intro request present covered
        obtain ⟨path, there, covers, apart⟩ := path_told_apart plain marked present covered
        exact apart ((agree path there).2 covers)
      exact ⟨fun request present covered => nothing request present ((agree request present).1 covered),
        nothing⟩
    · intro nothing request
      rw [Bool.eq_iff_iff, Resource.is_match_values, Resource.is_match_values,
        Resource.substituted_pattern]
      constructor
      · intro matched
        exact absurd matched.2 (nothing.1 request matched.1)
      · intro matched
        exact absurd matched.2 (nothing.2 request matched.1)
  · intro parsers fuel operator key text known marked same
    obtain ⟨other, sameValues, left, substituted⟩ :=
      condition_differs plain marked parsers fuel key known
    have equal := same other sameValues
    rw [left, substituted] at equal
    cases equal

/-- The request of a token with this subject. -/
def subjectValues : ConditionValues := [(str "sub", [str "alice"])]

def subjectKey : Key := ⟨.jwt .jwtSub, none⟩

/-- The objects below the directory of the subject. -/
def subjectPattern : Str := str "bucket/$\x7bjwt:sub\x7d/*"

theorem subject_plain : PlainValues subjectValues := by
  have plain : ∀ key ∈ KeyName.commonKeys, ∀ byte ∈ (firstValue subjectValues key).getD [],
      isSpecial byte = false := by
    decide +kernel
  intro key common value isFirst
  have bytes := plain key common
  rwa [isFirst, getD_some] at bytes

theorem subject_marked : Marked subjectValues subjectPattern :=
  ⟨.jwt .jwtSub, by decide, by decide, by decide⟩

/-- With the subject's value in its place the pattern covers an object of its directory, which
the marker does not: neither text matches nothing, and the condition tells them apart too. -/
theorem subject_markers_stay :
    (Resource.s3 subjectPattern).isMatch (str "bucket/alice/x") subjectValues = false ∧
    ((Resource.s3 subjectPattern).substituted subjectValues).isMatch (str "bucket/alice/x")
      subjectValues = true ∧
    ¬ (MatchesNothing subjectValues subjectPattern ∧
      MatchesNothing subjectValues (substitute subjectValues subjectPattern)) ∧
    ¬ ∀ other, SameFirstValues subjectValues other →
      (valueCondition .stringLike subjectKey subjectPattern).evaluateWithResolver
          Condition.stringParsers 0 other none =
        (valueCondition .stringLike subjectKey (substitute subjectValues subjectPattern)).evaluateWithResolver
          Condition.stringParsers 0 other none := by
  have stay := markers_stay_iff subjectValues subject_plain
  have told : (Resource.s3 subjectPattern).isMatch (str "bucket/alice/x") subjectValues ≠
      ((Resource.s3 subjectPattern).substituted subjectValues).isMatch (str "bucket/alice/x")
        subjectValues := by decide
  refine ⟨by decide, by decide, fun nothing => told ?_, ?_⟩
  · exact (stay.1 (.s3 subjectPattern) subject_marked).2 nothing _
  · exact stay.2 Condition.stringParsers 0 .stringLike subjectKey subjectPattern (.inr rfl)
      subject_marked

/-- The subject reaches none of the objects in its directory, and its name is not equal
to the variable that stands for it. -/
theorem subject_is_not_substituted :
    PlainValues subjectValues ∧ Marked subjectValues subjectPattern ∧
    (Resource.s3 subjectPattern).isMatch (str "bucket/alice/x") subjectValues = false ∧
    ((Resource.s3 subjectPattern).substituted subjectValues).isMatch (str "bucket/alice/x")
      subjectValues = true ∧
    (valueCondition .stringEquals subjectKey (str "$\x7bjwt:sub\x7d")).evaluateWithResolver
      Condition.stringParsers 0 subjectValues none = some false ∧
    (valueCondition .stringEquals subjectKey
        (substitute subjectValues (str "$\x7bjwt:sub\x7d"))).evaluateWithResolver
      Condition.stringParsers 0 subjectValues none = some true := by
  refine ⟨subject_plain, subject_marked, ?_⟩
  decide

end Rustfs.Policy
