import Mathlib.Data.List.TakeWhile
import Rustfs.Utils.MetadataCompat
import Mathlib.Algebra.Ring.Nat
import Mathlib.Data.List.Lex
import Mathlib.Data.String.Basic
import Mathlib.Data.List.Basic

/-!
# Searching, slicing and cleaning of texts

`str::find`, `str::split_once` and `str::get` on texts, and texts that start alike. A slice is
asked for in bytes and refused inside of a character.

`clean` and `path_join_buf` of `utils/src/path.rs` where the slash is the only separator; the
separators of Windows are left out. Slashes and dots are single bytes of the text, so the loop
over the bytes is one over the characters.
-/

namespace Rustfs.Utils

open List

/-- The part of a text before the first occurrence. -/
def beforeFirst (needle : List Char) : List Char → Option (List Char)
  | [] => if needle.isEmpty then some [] else none
  | c :: rest => if needle.isPrefixOf (c :: rest) then some [] else (beforeFirst needle rest).map (c :: ·)

def charsLen (chars : List Char) : Nat := (chars.map Char.utf8Size).sum

/-- The characters of the first bytes; none if the cut is inside a character or past the end. -/
def takeBytes : Nat → List Char → Option (List Char)
  | 0, _ => some []
  | _ + 1, [] => none
  | n + 1, c :: rest =>
    if c.utf8Size ≤ n + 1 then (takeBytes (n + 1 - c.utf8Size) rest).map (c :: ·) else none

/-- `trim_start_matches`: an occurrence at the start goes as often as there is one. -/
def trimLoop (pattern : List Char) : Nat → List Char → List Char
  | 0, text => text
  | rounds + 1, text =>
    if pattern.isPrefixOf text then trimLoop pattern rounds (text.drop pattern.length) else text

def trimStartMatches (text pattern : String) : String :=
  if pattern.isEmpty then text else .ofList (trimLoop pattern.toList text.toList.length text.toList)

def trimEndMatches (text pattern : String) : String :=
  if pattern.isEmpty then text
  else .ofList (trimLoop pattern.toList.reverse text.toList.length text.toList.reverse).reverse

def endsWith (text pattern : String) : Bool := pattern.toList.reverse.isPrefixOf text.toList.reverse

theorem take_bytes_append (front back : List Char) :
    takeBytes (charsLen front) (front ++ back) = some front := by
  induction front with
  | nil =>
    rw [charsLen]
    exact takeBytes.eq_1 _
  | cons c rest ih =>
    have positive := c.utf8Size_pos
    obtain ⟨n, size⟩ : ∃ n, charsLen (c :: rest) = n + 1 :=
      ⟨c.utf8Size - 1 + charsLen rest, by simp only [charsLen, map_cons, sum_cons]; omega⟩
    have left : n + 1 - c.utf8Size = charsLen rest := by
      simp only [charsLen, map_cons, sum_cons] at size ⊢
      omega
    have fits : c.utf8Size ≤ n + 1 := by
      simp only [charsLen, map_cons, sum_cons] at size
      omega
    rw [size, cons_append, takeBytes, if_pos fits, left, ih]
    rfl

theorem chars_len_append (front back : List Char) :
    charsLen (front ++ back) = charsLen front + charsLen back := by
  rw [charsLen, map_append, sum_append]
  rfl

variable {needle : List Char} {path : String}

theorem before_first_split {text before : List Char}
    (found : beforeFirst needle text = some before) : ∃ after, text = before ++ needle ++ after := by
  induction text generalizing before with
  | nil =>
    rw [beforeFirst] at found
    split at found
    · rename_i empty
      cases found
      exact ⟨[], by simpa using empty.symm⟩
    · cases found
  | cons c rest ih =>
    rw [beforeFirst] at found
    split at found
    · rename_i starts
      cases found
      obtain ⟨after, isText⟩ := List.isPrefixOf_iff_prefix.1 starts
      exact ⟨after, by simpa using isText.symm⟩
    · obtain ⟨behind, inRest, rfl⟩ := Option.map_eq_some_iff.1 found
      obtain ⟨after, isRest⟩ := ih inRest
      exact ⟨after, by simp [isRest]⟩

theorem before_first_stable {before after : List Char}
    (found : beforeFirst needle (before ++ needle ++ after) = some before) (other : List Char) :
    beforeFirst needle (before ++ needle ++ other) = some before := by
  induction before with
  | nil =>
    rw [nil_append]
    cases needle with
    | nil =>
      cases other with
      | nil => rfl
      | cons c rest => rfl
    | cons c rest =>
      rw [cons_append, beforeFirst, if_pos]
      exact List.isPrefixOf_iff_prefix.2 (prefix_append _ _)
  | cons c before ih =>
    simp only [cons_append] at found ⊢
    rw [beforeFirst] at found ⊢
    split at found
    · cases found
    · rename_i notHere
      rw [if_neg, ih]
      · rfl
      · obtain ⟨behind, inRest, same⟩ := Option.map_eq_some_iff.1 found
        cases same
        exact inRest
      · intro here
        apply notHere
        rw [List.isPrefixOf_iff_prefix] at here ⊢
        have short : needle <+: c :: (before ++ needle) := by
          apply prefix_of_prefix_length_le here
          · exact ⟨other, by simp⟩
          · simp only [length_cons, length_append]
            omega
        exact short.trans ⟨after, by simp⟩

theorem prefix_of_between {start text behind : List Char} :
    start ≤ text → text ≤ start ++ behind → start <+: text := by
  induction start generalizing text with
  | nil => exact fun _ _ => List.nil_prefix
  | cons c start ih =>
    intro lower upper
    cases text with
    | nil => exact absurd (nil_lt_cons c start) (not_lt.2 lower)
    | cons d text =>
      rw [cons_append] at upper
      have notAbove : ¬ c < d := fun above =>
        not_lt.2 upper (cons_lt_cons_iff.2 (.inl above))
      have notBelow : ¬ d < c := fun under =>
        not_lt.2 lower (cons_lt_cons_iff.2 (.inl under))
      have same : d = c := le_antisymm (not_lt.1 notAbove) (not_lt.1 notBelow)
      subst same
      have lowerRest : start ≤ text := not_lt.1 fun falls =>
        not_lt.2 lower (cons_lt_cons_iff.2 (.inr ⟨rfl, falls⟩))
      have upperRest : text ≤ start ++ behind := not_lt.1 fun rises =>
        not_lt.2 upper (cons_lt_cons_iff.2 (.inr ⟨rfl, rises⟩))
      exact cons_prefix_cons.2 ⟨rfl, ih lowerRest upperRest⟩

theorem le_append (start behind : List Char) : start ≤ start ++ behind := by
  induction start with
  | nil => exact not_lt.1 (not_lt_nil _)
  | cons c start ih => exact cons_le_cons c ih

/-- `str::rfind`: the text up to the last occurrence, and the rest of it from there. -/
def splitLast (needle : List Char) : List Char → Option (List Char × List Char)
  | [] => if needle.isEmpty then some ([], []) else none
  | c :: rest =>
    match splitLast needle rest with
    | some (front, tail) => some (c :: front, tail)
    | none => if needle.isPrefixOf (c :: rest) then some ([], c :: rest) else none

theorem split_last_none {text : List Char} (filled : needle ≠ []) :
    splitLast needle text = none ↔ ¬ needle <:+: text := by
  induction text with
  | nil =>
    have notEmpty : needle.isEmpty = false := isEmpty_eq_false_iff.2 filled
    simp [splitLast, notEmpty, filled]
  | cons c rest ih =>
    rw [splitLast]
    constructor
    · intro absent occurs
      split at absent
      · cases absent
      · rename_i notBehind
        split at absent
        · cases absent
        · rename_i notHere
          rcases infix_cons_iff.1 occurs with here | behind
          · exact notHere (List.isPrefixOf_iff_prefix.2 here)
          · exact ih.1 notBehind behind
    · intro absent
      rw [ih.2 fun behind => absent (infix_cons_iff.2 (.inr behind))]
      dsimp only
      rw [if_neg]
      intro here
      exact absent (infix_cons_iff.2 (.inl (List.isPrefixOf_iff_prefix.1 here)))

theorem split_last_append {c : Char} {tail : List Char} (filled : needle ≠ [])
    (here : needle <+: c :: tail) (last : ¬ needle <:+: tail) (front : List Char) :
    splitLast needle (front ++ c :: tail) = some (front, c :: tail) := by
  induction front with
  | nil =>
    rw [nil_append, splitLast, (split_last_none filled).2 last]
    dsimp only
    rw [if_pos (List.isPrefixOf_iff_prefix.2 here)]
  | cons d front ih => rw [cons_append, splitLast, ih]

theorem split_last_split {text front tail : List Char} (filled : needle ≠ [])
    (found : splitLast needle text = some (front, tail)) :
    ∃ c rest, tail = c :: rest ∧ text = front ++ c :: rest ∧ needle <+: c :: rest ∧
      ¬ needle <:+: rest := by
  induction text generalizing front with
  | nil =>
    rw [splitLast, isEmpty_eq_false_iff.2 filled] at found
    cases found
  | cons d text ih =>
    rw [splitLast] at found
    split at found
    · rename_i before behind isBehind
      cases found
      obtain ⟨c, rest, rfl, isText, here, last⟩ := ih isBehind
      exact ⟨c, rest, rfl, by rw [isText, cons_append], here, last⟩
    · rename_i notBehind
      split at found
      · rename_i here
        cases found
        exact ⟨d, text, rfl, rfl, List.isPrefixOf_iff_prefix.1 here,
          (split_last_none filled).1 notBehind⟩
      · cases found

structure PathCleaning where
  rest : List Char
  out : List Char
  dotdot : Nat

def elementEnds (rest : List Char) : Bool := rest.isEmpty || rest.head? = some '/'

/-- The loop that goes back to the last slash, from the length that is left. -/
def backToSlash (out : List Char) (dotdot : Nat) : Nat → Nat
  | 0 => 0
  | width + 1 =>
    if dotdot < width + 1 ∧ out.getD (width + 1) ' ' ≠ '/' then backToSlash out dotdot width
    else width + 1

/-- One round of the loop, at a character that is there. -/
def cleanRound (rooted : Bool) (state : PathCleaning) : PathCleaning :=
  if state.rest.head? = some '/' ∨ (state.rest.head? = some '.' ∧ elementEnds (state.rest.drop 1)) then
    { state with rest := state.rest.drop 1 }
  else if state.rest.take 2 = ['.', '.'] ∧ elementEnds (state.rest.drop 2) then
    if state.dotdot < state.out.length then
      { state with
        rest := state.rest.drop 2
        out := state.out.take (backToSlash state.out state.dotdot (state.out.length - 1)) }
    else if rooted then { state with rest := state.rest.drop 2 }
    else
      let out := (if state.out.isEmpty then [] else state.out ++ ['/']) ++ ['.', '.']
      ⟨state.rest.drop 2, out, out.length⟩
  else
    let apart := if rooted then state.out.length ≠ 1 else state.out.length ≠ 0
    { state with
      rest := state.rest.dropWhile (· ≠ '/')
      out := (if apart then state.out ++ ['/'] else state.out) ++ state.rest.takeWhile (· ≠ '/') }

def cleanRounds (rooted : Bool) : (bound : Nat) → PathCleaning → List Char
  | 0, state => state.out
  | bound + 1, state =>
    if state.rest.isEmpty then state.out else cleanRounds rooted bound (cleanRound rooted state)

def clean (path : String) : String :=
  if path.isEmpty then "."
  else
    let rooted : Bool := path.toList.head? = some '/'
    let start : PathCleaning := if rooted then ⟨path.toList.drop 1, ['/'], 1⟩ else ⟨path.toList, [], 0⟩
    let out := cleanRounds rooted path.toList.length start
    if out.isEmpty then "." else .ofList out

example : clean "../../abc/./def//.." = "../../abc" := by decide

/-- Cleaning leaves the path as it is, but for one slash at the end. -/
def Canonical (path : String) : Prop := clean path = path ∨ clean path ++ "/" = path

instance (path : String) : Decidable (Canonical path) :=
  inferInstanceAs (Decidable (clean path = path ∨ clean path ++ "/" = path))

theorem canonical_not_empty (canonical : Canonical path) : path ≠ "" := by
  rintro rfl
  revert canonical
  decide

/-- The scan of `path_needs_clean`, from the start of an element or behind its leading dots. -/
def needsCleanRounds (rooted : Bool) : (bound : Nat) → (rest : List Char) → (w : Nat) → Bool
  | 0, _, w => w = 0
  | bound + 1, rest, w =>
    match rest with
    | [] => w = 0
    | c :: tail =>
      if 127 < c.toNat ∨ c = '/' then true
      else if c = '.' then
        if elementEnds tail ∨ (tail.head? = some '.' ∧ elementEnds (tail.drop 1)) then true
        else needsCleanRounds rooted bound tail (w + 1)
      else
        let apart := if rooted then w ≠ 1 else w ≠ 0
        let behind := rest.dropWhile (· ≠ '/')
        needsCleanRounds rooted bound (if 1 < behind.length then behind.drop 1 else behind)
          ((if apart then w + 1 else w) + (rest.takeWhile (· ≠ '/')).length)

/-- Only the first byte of a character is compared with 127, and the width only with 0 and 1. -/
def pathNeedsClean (path : List Char) : Bool :=
  if path.isEmpty then true
  else
    let rooted : Bool := path.head? = some '/'
    if rooted then needsCleanRounds rooted path.length (path.drop 1) 1
    else needsCleanRounds rooted path.length path 0

def pathJoinLoop : (elements : List String) → (added : Nat) → (dst : String) → String
  | [], _, dst => dst
  | e :: elements, added, dst =>
    if 0 < added ∨ !e.isEmpty then
      pathJoinLoop elements (added + e.utf8ByteSize) ((if 0 < added then dst ++ "/" else dst) ++ e)
    else pathJoinLoop elements added dst

def endsWithSlash (elements : List String) : Bool :=
  elements.getLast?.any fun last => last.toList.getLast? = some '/'

/-- The target is not Windows. -/
def pathJoinBuf (elements : List String) : String :=
  let dst := pathJoinLoop elements 0 ""
  if pathNeedsClean dst.toList then
    if endsWithSlash elements then clean dst ++ "/" else clean dst
  else if endsWithSlash elements then dst ++ "/"
  else dst

section Kept

variable {rooted : Bool} {element rest out : List Char}

/-- An element that cleaning copies. -/
structure IsElement (element : List Char) : Prop where
  named : element ≠ []
  within : '/' ∉ element
  notDot : element ≠ ['.']
  notParent : element ≠ ['.', '.']

/-- Elements with one slash between them. -/
inductive Kept : List Char → Prop
  | last {element : List Char} (isElement : IsElement element) : Kept element
  | more {element rest : List Char} (isElement : IsElement element) (kept : Kept rest) :
      Kept (element ++ '/' :: rest)

theorem IsElement.dotted (isElement : IsElement element) : IsElement ('.' :: element) := by
  refine ⟨cons_ne_nil _ _, ?_, ?_, ?_⟩
  · simp [isElement.within]
  · simp [isElement.named]
  · simp [isElement.notDot]

theorem Kept.dotted (kept : Kept rest) : Kept ('.' :: rest) := by
  cases kept with
  | last isElement => exact .last isElement.dotted
  | more isElement kept => exact .more isElement.dotted kept

theorem behind_element (rest : List Char) :
    rest.dropWhile (· ≠ '/') = [] ∨ ∃ more, rest.dropWhile (· ≠ '/') = '/' :: more := by
  induction rest with
  | nil => exact .inl rfl
  | cons c rest ih =>
    by_cases isSlash : c = '/'
    · exact .inr ⟨rest, by simp [isSlash]⟩
    · simpa [isSlash] using ih

theorem is_element_of_head {c : Char} {tail : List Char} (inside : c ≠ '/') (notDot : c ≠ '.') :
    IsElement ((c :: tail).takeWhile (· ≠ '/')) := by
  have within : '/' ∉ (c :: tail).takeWhile (· ≠ '/') := by
    intro member
    simpa using mem_takeWhile_imp member
  have isCons : (c :: tail).takeWhile (· ≠ '/') = c :: tail.takeWhile (· ≠ '/') := by
    simp [inside]
  rw [isCons] at within ⊢
  refine ⟨cons_ne_nil _ _, within, ?_, ?_⟩
  · simp [notDot]
  · simp [notDot]

theorem kept_of_scan {bound w : Nat} (stays : needsCleanRounds rooted bound rest w = false)
    (filled : rest ≠ []) (enough : rest.length ≤ bound) : Kept rest := by
  induction bound generalizing rest w with
  | zero => exact absurd (length_eq_zero_iff.1 (Nat.le_zero.1 enough)) filled
  | succ bound ih =>
    cases rest with
    | nil => exact absurd rfl filled
    | cons c tail =>
      rw [length_cons] at enough
      simp only [needsCleanRounds] at stays
      split at stays
      · cases stays
      rename_i plain
      split at stays
      · rename_i isDot
        split at stays
        · cases stays
        rename_i goesOn
        rw [isDot]
        refine (ih stays ?_ (by omega)).dotted
        rintro rfl
        exact goesOn (.inl rfl)
      · rename_i notDot
        have inside : c ≠ '/' := fun isSlash => plain (.inr isSlash)
        have isElement := @is_element_of_head c tail inside notDot
        have parts := takeWhile_append_dropWhile (p := fun c : Char => c ≠ '/') (l := c :: tail)
        have length := congrArg List.length parts
        rw [length_append, length_cons] at length
        have filled := length_pos_iff.2 isElement.named
        rcases behind_element (c :: tail) with nothing | ⟨more, isMore⟩
        · rw [nothing, append_nil] at parts
          rw [← parts]
          exact .last isElement
        · rw [isMore] at parts stays length
          rw [← parts]
          refine .more isElement ?_
          cases more with
          | nil =>
            rw [if_neg (by decide)] at stays
            cases bound with
            | zero =>
              rw [length_cons] at length
              omega
            | succ bound => simp [needsCleanRounds] at stays
          | cons d more =>
            rw [if_pos (by simp)] at stays
            rw [length_cons] at length
            exact ih stays (cons_ne_nil _ _) (by omega)

/-- What is written so far, with a slash where another element may not follow directly. -/
def separated (rooted : Bool) (out : List Char) : List Char :=
  if (if rooted then out.length ≠ 1 else out.length ≠ 0) then out ++ ['/'] else out

theorem ends_at_element {behind : List Char} (within : '/' ∉ element)
    (ends : elementEnds (element ++ behind) = true) : element = [] := by
  cases element with
  | nil => rfl
  | cons c tail =>
    have isSlash : c = '/' := by simpa [elementEnds] using ends
    exact absurd mem_cons_self (isSlash ▸ within)

theorem clean_round_element {behind : List Char} (isElement : IsElement element)
    (follows : behind = [] ∨ ∃ more, behind = '/' :: more) (dotdot : Nat) :
    cleanRound rooted ⟨element ++ behind, out, dotdot⟩ =
      ⟨behind, separated rooted out ++ element, dotdot⟩ := by
  have inside : ∀ c ∈ element, decide (c ≠ '/') = true := by
    intro c member
    rw [decide_eq_true_eq]
    rintro rfl
    exact isElement.within member
  have parts : (element ++ behind).takeWhile (· ≠ '/') = element ∧
      (element ++ behind).dropWhile (· ≠ '/') = behind := by
    rw [takeWhile_append_of_pos inside, dropWhile_append_of_pos inside]
    rcases follows with rfl | ⟨more, rfl⟩
    · simp
    · simp
  obtain ⟨named, within, notDot, notParent⟩ := isElement
  unfold cleanRound
  rw [if_neg, if_neg]
  · simp only [parts, separated]
  · rintro ⟨dots, ends⟩
    dsimp only at dots ends
    cases element with
    | nil => exact named rfl
    | cons c tail =>
      cases tail with
      | nil =>
        rcases follows with rfl | ⟨more, rfl⟩
        · cases dots
        · cases dots
      | cons d tail =>
        have isNil := ends_at_element (fun member => within (by simp [member])) ends
        rw [isNil] at dots notParent
        exact notParent dots
  · rintro (isSlash | ⟨isDot, ends⟩)
    · cases element with
      | nil => exact named rfl
      | cons c tail =>
        cases isSlash
        exact within mem_cons_self
    · cases element with
      | nil => exact named rfl
      | cons c tail =>
        have isNil := ends_at_element (fun member => within (mem_cons_of_mem _ member)) ends
        rw [isNil] at notDot
        cases isDot
        exact notDot rfl

theorem clean_rounds_end (bound dotdot : Nat) : cleanRounds rooted bound ⟨[], out, dotdot⟩ = out := by
  cases bound with
  | zero => rfl
  | succ bound => rfl

theorem clean_rounds_kept (kept : Kept rest) {bound : Nat} (enough : rest.length ≤ bound)
    (begun : rooted = true → out ≠ []) (dotdot : Nat) :
    cleanRounds rooted bound ⟨rest, out, dotdot⟩ = separated rooted out ++ rest := by
  induction kept generalizing bound out with
  | @last element isElement =>
    have filled := length_pos_iff.2 isElement.named
    obtain ⟨bound, rfl⟩ := Nat.exists_eq_add_one_of_ne_zero (Nat.ne_of_gt (filled.trans_le enough))
    have round := @clean_round_element rooted element out [] isElement (.inl rfl) dotdot
    rw [append_nil] at round
    rw [cleanRounds, isEmpty_eq_false_iff.2 isElement.named, if_neg Bool.false_ne_true, round,
      clean_rounds_end]
  | @more element rest isElement kept ih =>
    have filled := length_pos_iff.2 isElement.named
    rw [length_append, length_cons] at enough
    obtain ⟨bound, rfl⟩ := Nat.exists_eq_add_of_le' (show 2 ≤ bound by omega)
    have round := @clean_round_element rooted element out _ isElement (.inr ⟨rest, rfl⟩) dotdot
    have written : separated rooted (separated rooted out ++ element) =
        separated rooted out ++ element ++ ['/'] := by
      have longer : out.length ≤ (separated rooted out).length := by
        unfold separated
        grind
      conv_lhs => rw [separated]
      rw [if_pos]
      rw [length_append]
      cases rooted with
      | false => exact Nat.ne_of_gt (by omega)
      | true =>
        have before := length_pos_iff.2 (begun rfl)
        exact Nat.ne_of_gt (by omega)
    have next : cleanRound rooted ⟨'/' :: rest, separated rooted out ++ element, dotdot⟩ =
        ⟨rest, separated rooted out ++ element, dotdot⟩ := if_pos (.inl rfl)
    have filled : (element ++ '/' :: rest).isEmpty = false := by simp
    rw [cleanRounds, filled, if_neg Bool.false_ne_true, round, cleanRounds, isEmpty_cons,
      if_neg Bool.false_ne_true, next, ih (by omega) (fun _ => by simp [isElement.named]), written]
    simp

theorem clean_kept (stays : pathNeedsClean path.toList = false) : clean path = path := by
  have filled : path.toList ≠ [] := by
    intro isNil
    rw [isNil] at stays
    cases stays
  have named : path.isEmpty = false := by
    rw [Bool.eq_false_iff]
    intro isEmpty
    rw [String.isEmpty_iff.1 isEmpty] at filled
    exact filled rfl
  have same (out : List Char) (isPath : out = path.toList) :
      (if out.isEmpty then "." else String.ofList out) = path := by
    rw [isPath, isEmpty_eq_false_iff.2 filled, if_neg Bool.false_ne_true, String.ofList_toList]
  unfold pathNeedsClean at stays
  unfold clean
  rw [isEmpty_eq_false_iff.2 filled, if_neg Bool.false_ne_true] at stays
  rw [named, if_neg Bool.false_ne_true]
  dsimp only at stays ⊢
  apply same
  by_cases isRooted : path.toList.head? = some '/'
  · rw [decide_eq_true isRooted] at stays ⊢
    rw [if_pos rfl] at stays ⊢
    obtain ⟨rest, isPath⟩ := head?_eq_some_iff.1 isRooted
    rw [isPath, drop_one, tail_cons] at stays ⊢
    cases rest with
    | nil => rfl
    | cons c rest =>
      have kept := kept_of_scan stays (cons_ne_nil _ _) (Nat.le_succ _)
      exact @clean_rounds_kept true _ ['/'] kept _ (Nat.le_succ _) (fun _ => cons_ne_nil _ _) 1
  · rw [decide_eq_false isRooted] at stays ⊢
    rw [if_neg Bool.false_ne_true] at stays ⊢
    have kept := kept_of_scan stays filled (Nat.le_refl _)
    exact @clean_rounds_kept false _ [] kept _ (Nat.le_refl _) (fun rooted => by cases rooted) 0

theorem join_loop_more (elements : List String) {added : Nat} (begun : 0 < added) (dst : String) :
    pathJoinLoop elements added dst = "/".intercalate (dst :: elements) := by
  induction elements generalizing added dst with
  | nil => exact String.intercalate_singleton.symm
  | cons e elements ih =>
    rw [pathJoinLoop, if_pos (.inl begun), if_pos begun, ih (Nat.add_pos_left begun _)]
    cases elements with
    | nil => rw [String.intercalate_singleton, String.intercalate_cons_cons, String.intercalate_singleton]
    | cons next elements => simp only [String.intercalate_cons_cons, String.append_assoc]

theorem join_loop_eq (elements : List String) :
    pathJoinLoop elements 0 "" = "/".intercalate (elements.dropWhile String.isEmpty) := by
  induction elements with
  | nil => exact String.intercalate_nil.symm
  | cons e elements ih =>
    rw [pathJoinLoop, dropWhile_cons]
    cases isEmpty : e.isEmpty with
    | true =>
      rw [if_neg (by simp), if_pos rfl]
      exact ih
    | false =>
      have size : 0 < e.utf8ByteSize := by
        rw [Nat.pos_iff_ne_zero]
        intro isZero
        rw [String.utf8ByteSize_eq_zero_iff.1 isZero] at isEmpty
        cases isEmpty
      rw [if_pos (.inr rfl), if_neg (Nat.lt_irrefl 0), if_neg Bool.false_ne_true, Nat.zero_add,
        String.empty_append, join_loop_more elements size]

/-- Joined elements are the cleaned text of the elements with slashes between, with the
trailing slash of the last one kept; and a path that is said not to need cleaning is its own
cleaned text. -/
theorem path_join_is_clean :
    (∀ elements, pathJoinBuf elements = clean ("/".intercalate (elements.dropWhile String.isEmpty)) ++
      if endsWithSlash elements then "/" else "") ∧
    ∀ path : String, pathNeedsClean path.toList = false → clean path = path := by
  refine ⟨?_, fun _ => clean_kept⟩
  intro elements
  unfold pathJoinBuf
  rw [join_loop_eq]
  dsimp only
  split
  · cases endsWithSlash elements with
    | true => rfl
    | false => exact String.append_empty.symm
  · rename_i stays
    rw [clean_kept (Bool.eq_false_iff.2 stays)]
    cases endsWithSlash elements with
    | true => rfl
    | false => exact String.append_empty.symm

theorem dotted_path_kept : clean "a/.b" = "a/.b" ∧ pathJoinBuf ["", "a", ".b"] = "a/.b" ++ "" :=
  ⟨path_join_is_clean.2 "a/.b" (by decide), path_join_is_clean.1 ["", "a", ".b"]⟩

end Kept

end Rustfs.Utils
