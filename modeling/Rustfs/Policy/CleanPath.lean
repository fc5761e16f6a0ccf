import Rustfs.Policy.Wildcard
import Rustfs.Library.Utf8
import Mathlib.Data.List.GetD
import Mathlib.Data.List.Forall2
import Mathlib.Data.List.Induction
import Mathlib.Data.List.TakeWhile

/-!
# Cleaned resource paths

`policy/utils/path.rs`: the port of `path.Clean` that a resource string goes through
before it is matched. The buffer is the list of the bytes written so far, and the source
index is the rest of the path. The buffer that is copied only when it has to be is in
`LazyBuf`.
-/

namespace Rustfs.Policy.Path

open List Library.Utf8

def slash : UInt8 := 0x2f
def dot : UInt8 := 0x2e

structure Cleaning where
  rest : Str
  out : Str
  dotdot : Nat

def atEnd (rest : Str) : Bool := rest.isEmpty || rest.head? = some slash

/-- The inner loop of a `..`, from the length that is left. -/
def backUp (out : Str) (dotdot : Nat) : Nat → Nat
  | 0 => 0
  | width + 1 =>
    if dotdot < width + 1 ∧ out.getD (width + 1) 0 ≠ slash then backUp out dotdot width
    else width + 1

def dropElement (cleaning : Cleaning) : Str :=
  cleaning.out.take (backUp cleaning.out cleaning.dotdot (cleaning.out.length - 1))

def separated (out : Str) : Str := if out.isEmpty then [] else out ++ [slash]

def parentStep (rooted : Bool) (cleaning : Cleaning) : Cleaning :=
  if cleaning.dotdot < cleaning.out.length then
    { cleaning with rest := cleaning.rest.drop 2, out := dropElement cleaning }
  else if rooted then { cleaning with rest := cleaning.rest.drop 2 }
  else
    let out := separated cleaning.out ++ [dot, dot]
    ⟨cleaning.rest.drop 2, out, out.length⟩

def elementStep (rooted : Bool) (cleaning : Cleaning) : Cleaning :=
  let apart := if rooted then cleaning.out.length ≠ 1 else cleaning.out.length ≠ 0
  let out := if apart then cleaning.out ++ [slash] else cleaning.out
  { cleaning with
    rest := cleaning.rest.dropWhile (· ≠ slash)
    out := out ++ cleaning.rest.takeWhile (· ≠ slash) }

/-- One round of the loop, at a byte that is there. -/
def cleanStep (rooted : Bool) (cleaning : Cleaning) : Cleaning :=
  if cleaning.rest.head? = some slash ∨
      (cleaning.rest.head? = some dot ∧ atEnd (cleaning.rest.drop 1)) then
    { cleaning with rest := cleaning.rest.drop 1 }
  else if cleaning.rest.take 2 = [dot, dot] ∧ atEnd (cleaning.rest.drop 2) then
    parentStep rooted cleaning
  else elementStep rooted cleaning

/-- The loop. A round takes a byte at least, so the length of the path bounds the
rounds. -/
def cleanLoop (rooted : Bool) : (bound : Nat) → Cleaning → Str
  | 0, cleaning => cleaning.out
  | bound + 1, cleaning =>
    if cleaning.rest.isEmpty then cleaning.out
    else cleanLoop rooted bound (cleanStep rooted cleaning)

def clean (path : Str) : Str :=
  if path.isEmpty then [dot]
  else
    let rooted : Bool := path.head? = some slash
    let start : Cleaning := if rooted then ⟨path.drop 1, [slash], 1⟩ else ⟨path, [], 0⟩
    let out := cleanLoop rooted path.length start
    if out.isEmpty then [dot] else out

example : clean (str "../../abc/./def//..") = str "../../abc" := by decide

def segments : Str → List Str
  | [] => [[]]
  | byte :: rest =>
    if byte = slash then [] :: segments rest
    else (byte :: (segments rest).headD []) :: (segments rest).tail

def Named (segment : Str) : Prop := segment ≠ [] ∧ segment ≠ [dot] ∧ segment ≠ [dot, dot]

def below (elements : List Str) : Str := elements.flatMap (slash :: ·)

theorem segments_cons_slash (rest : Str) : segments (slash :: rest) = [] :: segments rest := by
  rw [segments, if_pos rfl]

theorem segments_cons_byte {byte : UInt8} (other : byte ≠ slash) (rest : Str) :
    segments (byte :: rest) = (byte :: (segments rest).headD []) :: (segments rest).tail := by
  rw [segments, if_neg other]

theorem segments_join (path : Str) :
    ∃ first elements, segments path = first :: elements ∧ path = first ++ below elements := by
  induction path with
  | nil => exact ⟨[], [], rfl, rfl⟩
  | cons byte rest ih =>
    obtain ⟨first, elements, same, joined⟩ := ih
    by_cases isSlash : byte = slash
    · subst isSlash
      refine ⟨[], segments rest, rfl, ?_⟩
      rw [same, joined]
      rfl
    · refine ⟨byte :: first, elements, ?_, ?_⟩
      · rw [segments_cons_byte isSlash, same]
        rfl
      · rw [joined, cons_append]

theorem segments_no_slash (path : Str) : ∀ segment ∈ segments path, slash ∉ segment := by
  induction path with
  | nil => simp [segments]
  | cons byte rest ih =>
    obtain ⟨first, elements, same, joined⟩ := segments_join rest
    rw [same] at ih
    by_cases isSlash : byte = slash
    · subst isSlash
      rw [segments_cons_slash, same]
      intro segment member
      cases member with
      | head => simp
      | tail _ later => exact ih segment later
    · rw [segments_cons_byte isSlash, same]
      intro segment member
      cases member with
      | head =>
        rw [headD_cons, mem_cons, not_or]
        exact ⟨fun equal => isSlash equal.symm, ih first mem_cons_self⟩
      | tail _ later => exact ih segment (mem_cons_of_mem _ later)

theorem segments_append_slash {before : Str} (whole : slash ∉ before) (after : Str) :
    segments (before ++ slash :: after) = before :: segments after := by
  induction before with
  | nil => exact segments_cons_slash after
  | cons byte before ih =>
    rw [mem_cons, not_or] at whole
    rw [cons_append, segments_cons_byte (Ne.symm whole.1), ih whole.2]
    rfl

variable {elements : List Str} {path component : Str} {components : List Str}

section Kept

variable {segment rest out : Str} {dotdot bound : Nat}

theorem clean_step_slash (rooted : Bool) (cleaning : Cleaning)
    (isSlash : cleaning.rest.head? = some slash) :
    cleanStep rooted cleaning = { cleaning with rest := cleaning.rest.drop 1 } := by
  unfold cleanStep
  rw [if_pos (.inl isSlash)]

theorem take_element (whole : slash ∉ segment) (ends : atEnd rest = true) :
    (segment ++ rest).takeWhile (· ≠ slash) = segment ∧
      (segment ++ rest).dropWhile (· ≠ slash) = rest := by
  induction segment with
  | nil =>
    cases rest with
    | nil => exact ⟨rfl, rfl⟩
    | cons byte rest =>
      have isSlash : byte = slash := by simpa [atEnd] using ends
      simp [isSlash]
  | cons byte segment ih =>
    rw [mem_cons, not_or] at whole
    obtain ⟨taken, dropped⟩ := ih whole.2
    have kept : decide (byte ≠ slash) = true := decide_eq_true (Ne.symm whole.1)
    rw [cons_append, takeWhile_cons, dropWhile_cons, if_pos kept, if_pos kept, taken, dropped]
    exact ⟨rfl, rfl⟩

theorem clean_step_element (rooted : Bool) (named : Named segment) (whole : slash ∉ segment)
    (ends : atEnd rest = true) :
    cleanStep rooted ⟨segment ++ rest, out, dotdot⟩ =
      elementStep rooted ⟨segment ++ rest, out, dotdot⟩ := by
  obtain ⟨nonempty, notDot, notParent⟩ := named
  have notSlash : ¬ (segment ++ rest).head? = some slash := by
    cases segment with
    | nil => exact absurd rfl nonempty
    | cons byte segment =>
      intro isSlash
      cases isSlash
      exact whole mem_cons_self
  have notCurrent : ¬ ((segment ++ rest).head? = some dot ∧
      atEnd ((segment ++ rest).drop 1) = true) := by
    rintro ⟨isDot, single⟩
    match segment with
    | [] => exact nonempty rfl
    | [byte] =>
      cases isDot
      exact notDot rfl
    | first :: second :: segment =>
      have isSlash : second = slash := by simpa [atEnd] using single
      exact whole (by simp [isSlash])
  have notAbove : ¬ ((segment ++ rest).take 2 = [dot, dot] ∧
      atEnd ((segment ++ rest).drop 2) = true) := by
    rintro ⟨dots, double⟩
    match segment with
    | [] => exact nonempty rfl
    | [byte] =>
      cases rest with
      | nil => cases dots
      | cons second rest =>
        have isSlash : second = slash := by simpa [atEnd] using ends
        cases dots
        cases isSlash
    | [first, second] =>
      cases dots
      exact notParent rfl
    | first :: second :: third :: segment =>
      have isSlash : third = slash := by simpa [atEnd] using double
      exact whole (by simp [isSlash])
  unfold cleanStep
  rw [if_neg (not_or.2 ⟨notSlash, notCurrent⟩), if_neg notAbove]

theorem clean_step_named (named : Named segment) (whole : slash ∉ segment)
    (ends : atEnd rest = true) :
    cleanStep false ⟨segment ++ rest, out, dotdot⟩ =
      ⟨rest, (if out.isEmpty then [] else out ++ [slash]) ++ segment, dotdot⟩ := by
  obtain ⟨taken, dropped⟩ := take_element whole ends
  rw [clean_step_element false named whole ends]
  unfold elementStep
  rw [taken, dropped]
  cases out with
  | nil => rfl
  | cons byte out => rfl

theorem clean_loop_done : cleanLoop false bound ⟨[], out, dotdot⟩ = out := by
  cases bound with
  | zero => rfl
  | succ bound => rfl

theorem clean_loop_next (more : rest ≠ []) :
    cleanLoop false (bound + 1) ⟨rest, out, dotdot⟩ =
      cleanLoop false bound (cleanStep false ⟨rest, out, dotdot⟩) := by
  cases rest with
  | nil => exact absurd rfl more
  | cons byte rest => rfl

theorem at_end_below (elements : List Str) (trail : Str) (ends : atEnd trail = true) :
    atEnd (below elements ++ trail) = true := by
  cases elements with
  | nil => exact ends
  | cons element elements => rfl

theorem clean_loop_below {trail : Str}
    (named : ∀ element ∈ elements, Named element) (whole : ∀ element ∈ elements, slash ∉ element)
    (trailing : trail = [] ∨ trail = [slash]) (started : out ≠ [])
    (enough : (below elements ++ trail).length ≤ bound) :
    cleanLoop false bound ⟨below elements ++ trail, out, dotdot⟩ = out ++ below elements := by
  induction elements generalizing out bound with
  | nil =>
    rw [show below [] = [] from rfl, append_nil, nil_append]
    rcases trailing with rfl | rfl
    · exact clean_loop_done
    · obtain ⟨bound, rfl⟩ := Nat.exists_eq_add_of_le' enough
      exact clean_loop_done
  | cons element elements ih =>
    obtain ⟨thisNamed, restNamed⟩ := forall_mem_cons.1 named
    obtain ⟨thisWhole, restWhole⟩ := forall_mem_cons.1 whole
    have split : below (element :: elements) = slash :: (element ++ below elements) := by
      simp [below]
    have ends : atEnd (below elements ++ trail) = true := by
      apply at_end_below
      rcases trailing with rfl | rfl
      all_goals rfl
    rw [split, cons_append, append_assoc] at enough ⊢
    have shorter : (below elements ++ trail).length + 2 ≤ bound := by
      have long : 1 ≤ element.length := length_pos_iff.2 thisNamed.1
      simp only [length_cons, length_append] at enough ⊢
      omega
    obtain ⟨bound, rfl⟩ := Nat.exists_eq_add_of_le' shorter
    rw [← Nat.add_assoc, clean_loop_next (by simp), clean_step_slash _ _ rfl, drop_one,
      tail_cons, clean_loop_next (by simp [thisNamed.1]),
      clean_step_named thisNamed thisWhole ends, ih restNamed restWhole (by simp [thisNamed.1])
      (Nat.le_add_left _ _)]
    simp [started]

end Kept

/-- A path of named elements is its own cleaned form, and the cleaned form of the
path with a slash behind it. -/
theorem clean_named {trail : Str} (named : ∀ segment ∈ segments path, Named segment)
    (trailing : trail = [] ∨ trail = [slash]) : clean (path ++ trail) = path := by
  obtain ⟨first, elements, same, joined⟩ := segments_join path
  have whole := segments_no_slash path
  rw [same] at named whole
  obtain ⟨firstNamed, restNamed⟩ := forall_mem_cons.1 named
  obtain ⟨firstWhole, restWhole⟩ := forall_mem_cons.1 whole
  have ends : atEnd (below elements ++ trail) = true := by
    apply at_end_below
    rcases trailing with rfl | rfl
    all_goals rfl
  have nonempty : path ≠ [] := by simp [joined, firstNamed.1]
  have unrooted : ¬ (path ++ trail).head? = some slash := by
    rw [joined]
    cases first with
    | nil => exact absurd rfl firstNamed.1
    | cons byte first =>
      intro isSlash
      cases isSlash
      exact firstWhole mem_cons_self
  have looped : cleanLoop false (path ++ trail).length ⟨path ++ trail, [], 0⟩ = path := by
    have long : 1 ≤ first.length := length_pos_iff.2 firstNamed.1
    have enough : (below elements ++ trail).length + 1 ≤ (path ++ trail).length := by
      rw [joined]
      simp only [length_append]
      omega
    obtain ⟨bound, isBound⟩ := Nat.exists_eq_add_of_le' enough
    rw [isBound, ← Nat.add_assoc, clean_loop_next (by simp [nonempty]), joined, append_assoc,
      clean_step_named firstNamed firstWhole ends]
    exact clean_loop_below restNamed restWhole trailing firstNamed.1 (Nat.le_add_left _ _)
  unfold clean
  rw [if_neg (by simp [nonempty])]
  simp only [unrooted, decide_false, Bool.false_eq_true, if_false, looped]
  rw [if_neg (by simp [nonempty])]

/-- A text without its trailing slash, if there is one. -/
def trimmed (key : Str) : Str := if key.getLast? = some slash then key.dropLast else key

theorem trimmed_trail (key : Str) : ∃ trail, (trail = [] ∨ trail = [slash]) ∧ key = trimmed key ++ trail := by
  unfold trimmed
  split
  · rename_i isSlash
    refine ⟨[slash], .inr rfl, ?_⟩
    exact (dropLast_append_getLast? slash isSlash).symm
  · exact ⟨[], .inl rfl, (append_nil key).symm⟩

theorem clean_object {bucket key : Str} (bucketNamed : Named bucket) (bucketWhole : slash ∉ bucket)
    (named : ∀ segment ∈ segments (trimmed key), Named segment) :
    clean (bucket ++ slash :: key) = bucket ++ slash :: trimmed key := by
  obtain ⟨trail, trailing, same⟩ := trimmed_trail key
  have all : ∀ segment ∈ segments (bucket ++ slash :: trimmed key), Named segment := by
    rw [segments_append_slash bucketWhole]
    exact forall_mem_cons.2 ⟨bucketNamed, named⟩
  have cleaned := clean_named all trailing
  rw [append_assoc, cons_append, ← same] at cleaned
  exact cleaned

section Rounds

variable {rooted : Bool} {cleaning : Cleaning} {segment rest out : Str} {dotdot bound : Nat}

theorem drop_element_shorter (more : rest ≠ []) (notSlash : ¬ rest.head? = some slash) :
    (rest.dropWhile (· ≠ slash)).length < rest.length := by
  cases rest with
  | nil => exact absurd rfl more
  | cons byte rest =>
    have kept : decide (byte ≠ slash) = true :=
      decide_eq_true fun isSlash => notSlash (congrArg some isSlash)
    rw [dropWhile_cons, if_pos kept]
    exact Nat.lt_succ_of_le (dropWhile_suffix _).length_le

theorem clean_step_shorter (more : cleaning.rest ≠ []) :
    (cleanStep rooted cleaning).rest.length < cleaning.rest.length := by
  have nonempty : 0 < cleaning.rest.length := length_pos_iff.2 more
  have dropped : ∀ count, 0 < count → (cleaning.rest.drop count).length < cleaning.rest.length := by
    intro count positive
    rw [length_drop]
    omega
  unfold cleanStep
  split
  · exact dropped 1 Nat.one_pos
  rename_i ordinary
  split
  · unfold parentStep
    split
    · exact dropped 2 Nat.two_pos
    split
    all_goals exact dropped 2 Nat.two_pos
  · exact drop_element_shorter more fun isSlash => ordinary (.inl isSlash)

/-- The loop with rounds enough for what is left. -/
def finish (rooted : Bool) (cleaning : Cleaning) : Str :=
  cleanLoop rooted cleaning.rest.length cleaning

theorem clean_loop_done_any : cleanLoop rooted bound ⟨[], out, dotdot⟩ = out := by
  cases bound with
  | zero => rfl
  | succ bound => rfl

theorem clean_loop_bounds {other : Nat} (enough : cleaning.rest.length ≤ bound)
    (otherEnough : cleaning.rest.length ≤ other) :
    cleanLoop rooted bound cleaning = cleanLoop rooted other cleaning := by
  induction bound generalizing cleaning other with
  | zero =>
    obtain ⟨rest, out, dotdot⟩ := cleaning
    obtain rfl := length_eq_zero_iff.1 (Nat.le_zero.1 enough)
    rw [clean_loop_done_any, clean_loop_done_any]
  | succ bound ih =>
    by_cases more : cleaning.rest = []
    · obtain ⟨rest, out, dotdot⟩ := cleaning
      obtain rfl : rest = [] := more
      rw [clean_loop_done_any, clean_loop_done_any]
    · have shorter := @clean_step_shorter rooted _ more
      obtain ⟨other, rfl⟩ : ∃ less, other = less + 1 := Nat.exists_eq_succ_of_ne_zero (by omega)
      have same : cleanLoop rooted bound (cleanStep rooted cleaning) =
          cleanLoop rooted other (cleanStep rooted cleaning) := ih (by omega) (by omega)
      rw [cleanLoop, cleanLoop, same]

theorem finish_step (more : cleaning.rest ≠ []) :
    finish rooted cleaning = finish rooted (cleanStep rooted cleaning) := by
  have shorter := @clean_step_shorter rooted _ more
  obtain ⟨less, isLess⟩ : ∃ less, cleaning.rest.length = less + 1 :=
    Nat.exists_eq_succ_of_ne_zero (by omega)
  have nonempty : ¬ cleaning.rest.isEmpty = true := by simpa using more
  unfold finish
  rw [isLess, cleanLoop, if_neg nonempty]
  exact clean_loop_bounds (by omega) (Nat.le_refl _)

theorem finish_induction {holds : Cleaning → Prop}
    (step : ∀ cleaning, cleaning.rest ≠ [] → holds cleaning → holds (cleanStep rooted cleaning))
    (start : holds cleaning) : ∃ last, last.rest = [] ∧ last.out = finish rooted cleaning ∧ holds last := by
  induction size : cleaning.rest.length using Nat.strongRecOn generalizing cleaning with
  | _ size ih =>
    by_cases more : cleaning.rest = []
    · refine ⟨cleaning, more, ?_, start⟩
      obtain ⟨rest, out, dotdot⟩ := cleaning
      obtain rfl : rest = [] := more
      rfl
    · have shorter := @clean_step_shorter rooted _ more
      rw [finish_step more]
      exact ih _ (size ▸ shorter) (step cleaning more start) rfl

theorem clean_eq (path : Str) (nonempty : path ≠ []) :
    clean path =
      let rooted : Bool := path.head? = some slash
      let out := finish rooted (if rooted then ⟨path.drop 1, [slash], 1⟩ else ⟨path, [], 0⟩)
      if out.isEmpty then [dot] else out := by
  have enough : ∀ start : Cleaning, start.rest.length ≤ path.length → ∀ rooted,
      cleanLoop rooted path.length start = finish rooted start := by
    intro start short rooted
    exact clean_loop_bounds short (Nat.le_refl _)
  unfold clean
  rw [if_neg (by simpa using nonempty)]
  dsimp only
  rw [enough]
  split
  · simp
  · exact Nat.le_refl _

end Rounds

def joined : List Str → Str
  | [] => []
  | first :: elements => first ++ below elements

def rootText (rooted : Bool) : Str := if rooted then [slash] else []

def render (rooted : Bool) (elements : List Str) : Str := rootText rooted ++ joined elements

def parent : Str := [dot, dot]

/-- The elements of a cleaned path: it goes up first, if it has no root. A rooted path has nothing
to go up to. -/
structure Normal (rooted : Bool) (parents : Nat) (names : List Str) : Prop where
  named : ∀ name ∈ names, Named name ∧ slash ∉ name
  unrooted : rooted = true → parents = 0

def normalText (rooted : Bool) (parents : Nat) (names : List Str) : Str :=
  render rooted (List.replicate parents parent ++ names)

section Texts

variable {rooted : Bool} {parents : Nat} {names elements : List Str} {name : Str}

theorem below_snoc (elements : List Str) (name : Str) :
    below (elements ++ [name]) = below elements ++ slash :: name := by
  simp [below]

theorem render_snoc (rooted : Bool) (elements : List Str) (name : Str) :
    render rooted (elements ++ [name]) =
      (if elements = [] then rootText rooted else render rooted elements ++ [slash]) ++ name := by
  cases elements with
  | nil => simp [render, joined, below]
  | cons first elements => simp [render, joined, below_snoc]

theorem render_longer (filled : ∀ element ∈ elements, element ≠ []) (more : elements ≠ []) :
    (rootText rooted).length < (render rooted elements).length := by
  cases elements with
  | nil => exact absurd rfl more
  | cons first elements =>
    have long := length_pos_iff.2 (filled first mem_cons_self)
    simp only [render, joined, length_append]
    omega

theorem Normal.filled (normal : Normal rooted parents names) :
    ∀ element ∈ List.replicate parents parent ++ names, element ≠ [] := by
  intro element member
  rcases mem_append.1 member with up | isName
  · rw [eq_of_mem_replicate up]
    exact cons_ne_nil _ _
  · exact (normal.named element isName).1.1

theorem Normal.snoc (normal : Normal rooted parents names) (named : Named name)
    (whole : slash ∉ name) : Normal rooted parents (names ++ [name]) where
  named := by
    intro other member
    rcases mem_append.1 member with old | new
    · exact normal.named other old
    · rw [mem_singleton.1 new]
      exact ⟨named, whole⟩
  unrooted := normal.unrooted

theorem Normal.init (normal : Normal rooted parents (names ++ [name])) :
    Normal rooted parents names where
  named := fun other member => normal.named other (mem_append_left _ member)
  unrooted := normal.unrooted

theorem normal_text_snoc (rooted : Bool) (parents : Nat) (names : List Str) (name : Str) :
    normalText rooted parents (names ++ [name]) =
      (if List.replicate parents parent ++ names = [] then rootText rooted
        else normalText rooted parents names ++ [slash]) ++ name := by
  unfold normalText
  rw [← append_assoc, render_snoc]

theorem normal_text_le (normal : Normal rooted parents names) :
    (normalText rooted parents []).length ≤ (normalText rooted parents names).length ∧
      (names ≠ [] →
        (normalText rooted parents []).length < (normalText rooted parents names).length) := by
  induction names using List.reverseRecOn with
  | nil => exact ⟨Nat.le_refl _, fun more => absurd rfl more⟩
  | append_singleton names name ih =>
    have shorter := (ih normal.init).1
    have long : 0 < name.length :=
      length_pos_iff.2 (normal.named name (by simp)).1.1
    have longer : (normalText rooted parents []).length <
        (normalText rooted parents (names ++ [name])).length := by
      rw [normal_text_snoc, length_append]
      split
      · rename_i empty
        obtain ⟨noParents, rfl⟩ := append_eq_nil_iff.1 empty
        unfold normalText
        rw [append_nil, noParents]
        simp only [render, joined, append_nil]
        omega
      · rw [length_append]
        omega
    exact ⟨Nat.le_of_lt longer, fun _ => longer⟩

end Texts

section Built

variable {rooted : Bool} {parents : Nat} {names : List Str} {name : Str} {cleaning : Cleaning}

theorem back_up_to (stop : Nat) {out : Str} {dotdot width : Nat} (reach : stop ≤ width)
    (passes : ∀ index, stop < index → index ≤ width → dotdot < index ∧ out.getD index 0 ≠ slash)
    (stops : ¬ (dotdot < stop ∧ out.getD stop 0 ≠ slash)) : backUp out dotdot width = stop := by
  induction width with
  | zero => exact (Nat.le_zero.1 reach).symm
  | succ width ih =>
    rw [backUp]
    rcases Nat.lt_or_eq_of_le reach with before | rfl
    · rw [if_pos (passes (width + 1) before (Nat.le_refl _))]
      exact ih (Nat.le_of_lt_succ before) fun index after inside =>
        passes index after (Nat.le_succ_of_le inside)
    · rw [if_neg stops]

theorem get_in_name {front name : Str} (whole : slash ∉ name) {index : Nat}
    (after : front.length ≤ index) (inside : index < (front ++ name).length) :
    (front ++ name).getD index 0 ≠ slash := by
  rw [getD_append_right _ _ _ _ after, getD_eq_getElem _ _ (by
    rw [length_append] at inside
    omega)]
  intro isSlash
  exact whole (isSlash ▸ getElem_mem _)

theorem drop_element_last (normal : Normal rooted parents (names ++ [name])) (rest : Str) :
    dropElement ⟨rest, normalText rooted parents (names ++ [name]),
      (normalText rooted parents []).length⟩ = normalText rooted parents names := by
  have whole := (normal.named name (by simp)).2
  have long : 0 < name.length := length_pos_iff.2 (normal.named name (by simp)).1.1
  have bounded := (normal_text_le normal.init).1
  unfold dropElement
  dsimp only
  rw [normal_text_snoc]
  by_cases empty : List.replicate parents parent ++ names = []
  · have isRoot : normalText rooted parents names = rootText rooted := by
      unfold normalText
      rw [empty]
      simp [render, joined]
    have upRoot : normalText rooted parents [] = rootText rooted := by
      unfold normalText
      rw [(append_eq_nil_iff.1 empty).1]
      simp [render, joined]
    rw [if_pos empty, isRoot, upRoot, back_up_to (rootText rooted).length]
    · exact take_left
    · rw [length_append]
      omega
    · intro index after inside
      exact ⟨after, get_in_name whole (Nat.le_of_lt after) (by
        omega)⟩
    · exact fun both => Nat.lt_irrefl _ both.1
  · rw [if_neg empty, back_up_to (normalText rooted parents names).length]
    · rw [append_assoc, take_left]
    · rw [length_append, length_append]
      omega
    · intro index after inside
      refine ⟨by omega, get_in_name whole ?_ ?_⟩
      · rw [length_append, length_singleton]
        omega
      · omega
    · intro both
      apply both.2
      rw [append_assoc, getD_append_right _ _ _ _ (Nat.le_refl _), Nat.sub_self]
      rfl

def Reached (rooted : Bool) (cleaning : Cleaning) : Prop :=
  ∃ parents names, Normal rooted parents names ∧ cleaning.out = normalText rooted parents names ∧
    cleaning.dotdot = (normalText rooted parents []).length

theorem separated_parent (parents : Nat) :
    separated (normalText false parents []) ++ [dot, dot] = normalText false (parents + 1) [] := by
  have added : normalText false (parents + 1) [] =
      render false (List.replicate parents parent ++ [parent]) := by
    unfold normalText
    rw [append_nil, replicate_succ']
  rw [added, render_snoc]
  unfold separated
  cases parents with
  | zero => rfl
  | succ parents =>
    have longer : (rootText false).length < (normalText false (parents + 1) []).length :=
      render_longer (by simp [parent]) (by simp)
    unfold normalText
    rw [append_nil]
    rfl

theorem parent_step_reached (reached : Reached rooted cleaning) :
    Reached rooted (parentStep rooted cleaning) := by
  obtain ⟨parents, names, normal, isOut, isDotdot⟩ := reached
  obtain ⟨rest, out, dotdot⟩ := cleaning
  subst isOut isDotdot
  unfold parentStep
  split
  · rename_i above
    induction names using List.reverseRecOn with
    | nil => exact absurd above (Nat.lt_irrefl _)
    | append_singleton names name =>
      refine ⟨parents, names, normal.init, ?_, rfl⟩
      exact drop_element_last normal rest
  · rename_i notAbove
    have noNames : names = [] := by
      by_contra more
      exact notAbove ((normal_text_le normal).2 more)
    subst noNames
    split
    · exact ⟨parents, [], normal, rfl, rfl⟩
    · rename_i unrooted
      have isFalse : rooted = false := by simpa using unrooted
      subst isFalse
      have normal : Normal false (parents + 1) [] :=
        ⟨fun name member => absurd member not_mem_nil, fun isRooted => absurd isRooted unrooted⟩
      have up := separated_parent parents
      exact ⟨parents + 1, [], normal, up, congrArg List.length up⟩

theorem at_end_drop_element (rest : Str) : atEnd (rest.dropWhile (· ≠ slash)) = true := by
  induction rest with
  | nil => rfl
  | cons byte rest ih =>
    by_cases isSlash : byte = slash
    · simp [isSlash, atEnd]
    · rw [dropWhile_cons, if_pos (decide_eq_true isSlash)]
      exact ih

theorem element_named {rest : Str} (more : rest ≠ [])
    (ordinary : ¬ (rest.head? = some slash ∨ (rest.head? = some dot ∧ atEnd (rest.drop 1) = true)))
    (notParent : ¬ (rest.take 2 = [dot, dot] ∧ atEnd (rest.drop 2) = true)) :
    Named (rest.takeWhile (· ≠ slash)) ∧ slash ∉ rest.takeWhile (· ≠ slash) := by
  have split := takeWhile_append_dropWhile (p := fun byte : UInt8 => decide (byte ≠ slash)) (l := rest)
  have ends := at_end_drop_element rest
  refine ⟨⟨?_, ?_, ?_⟩, ?_⟩
  · intro empty
    rw [empty, nil_append] at split
    rw [split] at ends
    apply ordinary
    cases rest with
    | nil => exact absurd rfl more
    | cons byte rest => exact .inl (by simpa [atEnd] using ends)
  · intro single
    rw [single] at split
    apply ordinary
    rw [← split]
    exact .inr ⟨rfl, ends⟩
  · intro double
    rw [double] at split
    apply notParent
    rw [← split]
    exact ⟨rfl, ends⟩
  · intro member
    have kept := mem_takeWhile_imp member
    simp at kept

theorem element_step_text (normal : Normal rooted parents names) (rest : Str) (dotdot : Nat) :
    (elementStep rooted ⟨rest, normalText rooted parents names, dotdot⟩).out =
      normalText rooted parents (names ++ [rest.takeWhile (· ≠ slash)]) := by
  unfold elementStep
  rw [normal_text_snoc]
  by_cases empty : List.replicate parents parent ++ names = []
  · have isRoot : normalText rooted parents names = rootText rooted := by
      unfold normalText
      rw [empty]
      simp [render, joined]
    rw [if_pos empty, isRoot]
    cases rooted with
    | true => rfl
    | false => rfl
  · have longer : (rootText rooted).length < (normalText rooted parents names).length :=
      render_longer normal.filled empty
    rw [if_neg empty]
    cases rooted with
    | true =>
      have apart : (normalText true parents names).length ≠ 1 := Nat.ne_of_gt longer
      simp [apart]
    | false =>
      have apart : normalText false parents names ≠ [] := length_pos_iff.1 longer
      simp [apart]

theorem element_step_reached (reached : Reached rooted cleaning)
    (named : Named (cleaning.rest.takeWhile (· ≠ slash)))
    (whole : slash ∉ cleaning.rest.takeWhile (· ≠ slash)) :
    Reached rooted (elementStep rooted cleaning) := by
  obtain ⟨parents, names, normal, isOut, isDotdot⟩ := reached
  obtain ⟨rest, out, dotdot⟩ := cleaning
  subst isOut
  exact ⟨parents, names ++ [rest.takeWhile (· ≠ slash)], normal.snoc named whole,
    element_step_text normal rest dotdot, isDotdot⟩

theorem clean_step_reached (more : cleaning.rest ≠ []) (reached : Reached rooted cleaning) :
    Reached rooted (cleanStep rooted cleaning) := by
  unfold cleanStep
  split
  · exact reached
  rename_i ordinary
  split
  · exact parent_step_reached reached
  · rename_i notParent
    obtain ⟨named, whole⟩ := element_named more ordinary notParent
    exact element_step_reached reached named whole

theorem clean_normal (path : Str) (present : clean path ≠ [dot]) :
    ∃ rooted parents names, Normal rooted parents names ∧
      clean path = normalText rooted parents names ∧ normalText rooted parents names ≠ [] := by
  by_cases nonempty : path = []
  · subst nonempty
    exact absurd rfl present
  · have built : ∀ rooted start, Reached rooted start → ∃ parents names,
        Normal rooted parents names ∧ finish rooted start = normalText rooted parents names := by
      intro rooted start reached
      obtain ⟨last, _, isOut, parents, names, normal, isText, _⟩ :=
        finish_induction (fun _ => clean_step_reached) reached
      exact ⟨parents, names, normal, isOut.symm.trans isText⟩
    have started : ∀ rooted, Reached rooted
        (if rooted then ⟨path.drop 1, [slash], 1⟩ else ⟨path, [], 0⟩) := by
      intro rooted
      refine ⟨0, [], ⟨fun name member => absurd member not_mem_nil, fun _ => rfl⟩, ?_⟩
      cases rooted with
      | true | false => exact ⟨rfl, rfl⟩
    obtain ⟨parents, names, normal, isText⟩ := built _ _ (started (path.head? = some slash))
    rw [clean_eq path nonempty] at present ⊢
    dsimp only at present ⊢
    rw [isText] at present ⊢
    by_cases empty : (normalText (decide (path.head? = some slash)) parents names).isEmpty = true
    · rw [if_pos empty] at present
      exact absurd rfl present
    · rw [if_neg empty]
      exact ⟨_, parents, names, normal, rfl, by simpa using empty⟩

end Built

section Stays

variable {rooted : Bool} {parents : Nat} {names front elements : List Str}

theorem joined_cons (first : Str) (elements : List Str) :
    joined (first :: elements) = first ++ below elements := rfl

theorem below_cons (first : Str) (elements : List Str) :
    below (first :: elements) = slash :: joined (first :: elements) := by
  simp [below, joined]

theorem finish_below (elements : List Str) (out : Str) (dotdot : Nat) :
    finish rooted ⟨below elements, out, dotdot⟩ = finish rooted ⟨joined elements, out, dotdot⟩ := by
  cases elements with
  | nil => rfl
  | cons first elements =>
    rfl

theorem finish_names (normal : Normal rooted parents (front ++ names)) (dotdot : Nat) :
    finish rooted ⟨joined names, normalText rooted parents front, dotdot⟩ =
      normalText rooted parents (front ++ names) := by
  induction names generalizing front with
  | nil =>
    rw [append_nil]
    rfl
  | cons name names ih =>
    obtain ⟨named, whole⟩ := normal.named name (by simp)
    have ends : atEnd (below names) = true := by
      have below := at_end_below names [] rfl
      rwa [append_nil] at below
    have started : Normal rooted parents front :=
      ⟨fun other member => normal.named other (mem_append_left _ member), normal.unrooted⟩
    obtain ⟨taken, dropped⟩ := take_element whole ends
    have stepped : elementStep rooted
        ⟨name ++ below names, normalText rooted parents front, dotdot⟩ =
          ⟨below names, normalText rooted parents (front ++ [name]), dotdot⟩ := by
      have out := element_step_text started (name ++ below names) dotdot
      rw [taken] at out
      rw [← out]
      unfold elementStep
      rw [dropped]
    have moved : front ++ name :: names = front ++ [name] ++ names := by simp
    rw [moved] at normal ⊢
    rw [joined_cons, finish_step (by simp [named.1]), clean_step_element rooted named whole ends,
      stepped, finish_below, ih normal]

theorem finish_parents (normal : Normal false parents names) (above : Nat) :
    finish false ⟨joined (List.replicate parents parent ++ names), normalText false above [],
        (normalText false above []).length⟩ = normalText false (above + parents) names := by
  induction parents generalizing above with
  | zero =>
    have started : Normal false above ([] ++ names) :=
      ⟨normal.named, fun isRooted => absurd isRooted Bool.false_ne_true⟩
    exact finish_names started _
  | succ parents ih =>
    have ends : atEnd (below (List.replicate parents parent ++ names)) = true := by
      have below := at_end_below (List.replicate parents parent ++ names) [] rfl
      rwa [append_nil] at below
    have stepped : cleanStep false
        ⟨parent ++ below (List.replicate parents parent ++ names), normalText false above [],
          (normalText false above []).length⟩ =
        ⟨below (List.replicate parents parent ++ names), normalText false (above + 1) [],
          (normalText false (above + 1) []).length⟩ := by
      unfold cleanStep parentStep
      rw [if_neg (by simp [parent, slash, dot, atEnd]), if_pos ⟨rfl, ends⟩,
        if_neg (Nat.lt_irrefl _), if_neg Bool.false_ne_true]
      dsimp only
      rw [separated_parent]
      rfl
    have fewer : Normal false parents names :=
      ⟨normal.named, fun isRooted => absurd isRooted Bool.false_ne_true⟩
    rw [replicate_succ, cons_append, joined_cons, finish_step (by simp [parent]), stepped,
      finish_below, ih fewer, Nat.add_right_comm, Nat.add_assoc]

theorem joined_head {first : Str} (filled : first ≠ []) (whole : slash ∉ first) :
    (joined (first :: elements)).head? ≠ some slash := by
  cases first with
  | nil => exact absurd rfl filled
  | cons byte first =>
    intro isSlash
    cases isSlash
    exact whole mem_cons_self

theorem Normal.whole (normal : Normal rooted parents names) :
    ∀ element ∈ List.replicate parents parent ++ names, slash ∉ element := by
  intro element member
  rcases mem_append.1 member with up | isName
  · rw [eq_of_mem_replicate up]
    decide
  · exact (normal.named element isName).2

theorem normal_text_rooted (normal : Normal rooted parents names) :
    decide ((normalText rooted parents names).head? = some slash) = rooted := by
  cases rooted with
  | true => exact decide_eq_true rfl
  | false =>
    apply decide_eq_false
    unfold normalText render rootText
    cases same : List.replicate parents parent ++ names with
    | nil => exact fun isSlash => by cases isSlash
    | cons first elements =>
      have member : first ∈ List.replicate parents parent ++ names := by
        rw [same]
        exact mem_cons_self
      exact joined_head (normal.filled first member) (normal.whole first member)

theorem clean_normal_text (normal : Normal rooted parents names)
    (present : normalText rooted parents names ≠ []) :
    clean (normalText rooted parents names) = normalText rooted parents names := by
  have finished : finish rooted (if rooted then ⟨(normalText rooted parents names).drop 1, [slash], 1⟩
      else ⟨normalText rooted parents names, [], 0⟩) = normalText rooted parents names := by
    cases rooted with
    | true =>
      obtain rfl := normal.unrooted rfl
      exact @finish_names true 0 names [] normal 1
    | false =>
      have copied := finish_parents normal 0
      rw [Nat.zero_add] at copied
      exact copied
  rw [clean_eq _ present, normal_text_rooted normal]
  dsimp only
  rw [finished, if_neg (by simpa using present)]

end Stays

/-- Bytes that the cleaning does not tell apart. -/
def Similar (byte other : UInt8) : Prop :=
  (byte = slash ↔ other = slash) ∧ (byte = dot ↔ other = dot)

abbrev SimilarTexts : Str → Str → Prop := List.Forall₂ Similar

section Exchanged

variable {rooted : Bool} {parents : Nat} {names elements : List Str} {text name other : Str}
  {others : List Str}

theorem SimilarTexts.symm (similar : SimilarTexts text other) : SimilarTexts other text := by
  induction similar with
  | nil => exact .nil
  | cons here _ ih => exact .cons ⟨here.1.symm, here.2.symm⟩ ih

theorem similar_slash (similar : SimilarTexts text other) : slash ∈ text ↔ slash ∈ other := by
  induction similar with
  | nil => exact Iff.rfl
  | cons here _ ih =>
    rw [mem_cons, mem_cons, ih, eq_comm, here.1, eq_comm]

theorem similar_dots {count : Nat} (similar : SimilarTexts text (List.replicate count dot)) :
    text = List.replicate count dot := by
  induction count generalizing text with
  | zero => exact forall₂_nil_right_iff.1 similar
  | succ count ih =>
    rw [replicate_succ] at similar ⊢
    cases similar with
    | cons here rest => rw [here.2.2 rfl, ih rest]

theorem similar_named (similar : SimilarTexts name other) (named : Named other) : Named name := by
  have dots : ∀ count, name = List.replicate count dot → other = List.replicate count dot := by
    intro count isDots
    exact similar_dots (isDots ▸ similar.symm)
  exact ⟨fun empty => named.1 (dots 0 empty), fun single => named.2.1 (dots 1 single),
    fun double => named.2.2 (dots 2 double)⟩

theorem similar_append {front back : Str} (similar : SimilarTexts text (front ++ back)) :
    ∃ first second, text = first ++ second ∧ SimilarTexts first front ∧ SimilarTexts second back := by
  refine ⟨text.take front.length, text.drop front.length, (take_append_drop _ _).symm, ?_, ?_⟩
  · exact forall₂_take_append _ _ _ similar
  · exact forall₂_drop_append _ _ _ similar

theorem similar_below (similar : SimilarTexts text (below elements)) :
    ∃ others, text = below others ∧ List.Forall₂ SimilarTexts others elements := by
  induction elements generalizing text with
  | nil => exact ⟨[], forall₂_nil_right_iff.1 similar, .nil⟩
  | cons element elements ih =>
    cases similar with
    | cons here rest =>
      obtain ⟨first, later, rfl, isFirst, isLater⟩ := similar_append rest
      obtain ⟨others, rfl, alike⟩ := ih isLater
      refine ⟨first :: others, ?_, .cons isFirst alike⟩
      rw [here.1.2 rfl]
      exact (below_cons first others).symm

theorem similar_joined (similar : SimilarTexts text (joined elements)) :
    ∃ others, text = joined others ∧ List.Forall₂ SimilarTexts others elements := by
  cases elements with
  | nil => exact ⟨[], forall₂_nil_right_iff.1 similar, .nil⟩
  | cons element elements =>
    obtain ⟨first, later, rfl, isFirst, isLater⟩ := similar_append similar
    obtain ⟨others, rfl, alike⟩ := similar_below isLater
    exact ⟨first :: others, rfl, .cons isFirst alike⟩

theorem similar_parents
    (similar : List.Forall₂ SimilarTexts others (List.replicate parents parent ++ names)) :
    ∃ others', others = List.replicate parents parent ++ others' ∧
      List.Forall₂ SimilarTexts others' names := by
  induction parents generalizing others with
  | zero => exact ⟨others, rfl, similar⟩
  | succ parents ih =>
    cases similar with
    | cons here rest =>
      obtain ⟨others, rfl, alike⟩ := ih rest
      refine ⟨others, ?_, alike⟩
      rw [@similar_dots _ 2 here]
      rfl

theorem similar_root (similar : SimilarTexts text (rootText rooted)) : text = rootText rooted := by
  cases rooted with
  | true =>
    cases similar with
    | cons here rest =>
      rw [here.1.2 rfl, forall₂_nil_right_iff.1 rest]
      rfl
  | false => exact forall₂_nil_right_iff.1 similar

theorem similar_normal (similar : List.Forall₂ SimilarTexts others names)
    (normal : Normal rooted parents names) : Normal rooted parents others where
  named := by
    have named := normal.named
    clear normal
    induction similar with
    | nil => exact fun name member => absurd member not_mem_nil
    | cons here _ ih =>
      obtain ⟨first, rest⟩ := forall_mem_cons.1 named
      refine forall_mem_cons.2 ⟨⟨similar_named here first.1, ?_⟩, ih rest⟩
      exact fun member => first.2 ((similar_slash here).1 member)
  unrooted := normal.unrooted

theorem clean_similar (present : clean path ≠ [dot])
    (similar : SimilarTexts text (clean path)) : clean text = text ∧ text ≠ [dot] := by
  obtain ⟨rooted, parents, names, normal, isText, nonempty⟩ := clean_normal path present
  constructor
  · rw [isText] at similar
    obtain ⟨root, rest, rfl, isRoot, isRest⟩ := similar_append similar
    obtain ⟨elements, rfl, alike⟩ := similar_joined isRest
    obtain ⟨others, rfl, sameNames⟩ := similar_parents alike
    rw [similar_root isRoot] at similar ⊢
    refine clean_normal_text (similar_normal sameNames normal) ?_
    intro empty
    change SimilarTexts (normalText rooted parents others) _ at similar
    rw [empty] at similar
    exact nonempty (forall₂_nil_left_iff.1 similar)
  · intro isDot
    rw [isDot] at similar
    exact present (@similar_dots _ 1 similar.symm)

end Exchanged

/-- A component on top of a stack. A `..` vanishes at the root, and stays on a relative path
with nothing to take away. -/
def pushComponent (rooted : Bool) (stack : List Str) (component : Str) : List Str :=
  if component = [] ∨ component = [dot] then stack
  else if component = parent then
    match stack.getLast? with
    | some last => if last = parent then stack ++ [parent] else stack.dropLast
    | none => if rooted then [] else [parent]
  else stack ++ [component]

def stackText (rooted : Bool) (stack : List Str) : Str :=
  if rooted then slash :: List.intercalate [slash] stack
  else if stack = [] then [dot]
  else List.intercalate [slash] stack

def stackClean (path : Str) : Str :=
  let rooted : Bool := path.head? = some slash
  stackText rooted ((segments path).foldl (pushComponent rooted) [])

example : stackClean (str "a/../../b//./c/") = str "../b/c" := by decide

theorem joined_intercalate (elements : List Str) :
    joined elements = List.intercalate [slash] elements := by
  cases elements with
  | nil => rfl
  | cons first elements =>
    induction elements generalizing first with
    | nil => simp [joined, below]
    | cons second elements ih =>
      rw [intercalate_cons_cons, ← ih second, joined, below_cons]
      simp

/-- The state of the loop that has written a stack. -/
structure Stands (rooted : Bool) (stack : List Str) (out : Str) (dotdot : Nat) : Prop where
  written : ∃ parents names, Normal rooted parents names ∧
    stack = List.replicate parents parent ++ names ∧ out = normalText rooted parents names ∧
      dotdot = (normalText rooted parents []).length

section Loop

variable {rooted : Bool} {stack : List Str} {out : Str} {dotdot : Nat}

theorem Stands.out_eq (stands : Stands rooted stack out dotdot) : out = render rooted stack := by
  obtain ⟨parents, names, _, rfl, rfl, _⟩ := stands.written
  rfl

theorem named_ne_parent {name : Str} (named : Named name) : name ≠ parent := named.2.2

theorem stands_parent (stands : Stands rooted stack out dotdot) (rest : Str) :
    ∃ changed dots, parentStep rooted ⟨parent ++ rest, out, dotdot⟩ = ⟨rest, changed, dots⟩ ∧
      Stands rooted (pushComponent rooted stack parent) changed dots := by
  obtain ⟨parents, names, normal, rfl, rfl, rfl⟩ := stands.written
  unfold parentStep pushComponent
  induction names using List.reverseRecOn with
  | append_singleton names name =>
    have above := (normal_text_le normal).2 (by simp)
    have named := (normal.named name (by simp)).1
    rw [if_pos above, drop_element_last normal, ← append_assoc, getLast?_concat, dropLast_concat]
    dsimp only
    rw [if_neg (named_ne_parent named)]
    exact ⟨_, _, rfl, ⟨parents, names, normal.init, rfl, rfl, rfl⟩⟩
  | nil =>
    rw [if_neg (Nat.lt_irrefl _), append_nil]
    cases rooted with
    | true =>
      obtain rfl := normal.unrooted rfl
      exact ⟨_, _, rfl, ⟨0, [], normal, rfl, rfl, rfl⟩⟩
    | false =>
      have up := separated_parent parents
      have more : Normal false (parents + 1) [] :=
        ⟨fun name member => absurd member not_mem_nil, fun isRooted => by cases isRooted⟩
      refine ⟨_, _, rfl, ⟨parents + 1, [], more, ?_, up, congrArg List.length up⟩⟩
      rw [append_nil, replicate_succ']
      cases parents with
      | zero => rfl
      | succ parents =>
        rw [replicate_succ' (n := parents), getLast?_concat]
        rfl

theorem stands_component {rest : Str} (stands : Stands rooted stack out dotdot)
    (whole : slash ∉ component) (ends : atEnd rest = true) :
    ∃ changed dots,
      finish rooted ⟨component ++ rest, out, dotdot⟩ = finish rooted ⟨rest, changed, dots⟩ ∧
        Stands rooted (pushComponent rooted stack component) changed dots := by
  by_cases empty : component = []
  · subst empty
    exact ⟨out, dotdot, rfl, stands⟩
  have more : component ++ rest ≠ [] := by simp [empty]
  by_cases isDot : component = [dot]
  · subst isDot
    refine ⟨out, dotdot, ?_, stands⟩
    rw [finish_step more]
    unfold cleanStep
    rw [if_pos (.inr ⟨rfl, ends⟩)]
    rfl
  by_cases isParent : component = parent
  · subst isParent
    obtain ⟨changed, dots, stepped, after⟩ := stands_parent stands rest
    refine ⟨changed, dots, ?_, after⟩
    rw [finish_step more, ← stepped]
    unfold cleanStep
    rw [if_neg (by simp [parent, slash, dot, atEnd]), if_pos ⟨rfl, ends⟩]
  · have named : Named component := ⟨empty, isDot, isParent⟩
    obtain ⟨parents, names, normal, rfl, rfl, rfl⟩ := stands.written
    obtain ⟨taken, dropped⟩ := take_element whole ends
    have text := element_step_text normal (component ++ rest) (normalText rooted parents []).length
    rw [taken] at text
    refine ⟨normalText rooted parents (names ++ [component]), _, ?_,
      ⟨parents, names ++ [component], normal.snoc named whole, ?_, rfl, rfl⟩⟩
    · rw [finish_step more, clean_step_element rooted named whole ends, ← text]
      unfold elementStep
      rw [dropped]
    · unfold pushComponent
      rw [if_neg (not_or.2 ⟨empty, isDot⟩), if_neg isParent, append_assoc]

theorem finish_stack (stands : Stands rooted stack out dotdot)
    (whole : ∀ element ∈ component :: components, slash ∉ element) :
    finish rooted ⟨component ++ below components, out, dotdot⟩ =
      render rooted ((component :: components).foldl (pushComponent rooted) stack) := by
  induction components generalizing component stack out dotdot with
  | nil =>
    obtain ⟨changed, dots, finished, after⟩ :=
      stands_component stands (whole component mem_cons_self) (show atEnd [] = true from rfl)
    change finish rooted ⟨component ++ [], out, dotdot⟩ = _
    rw [finished, foldl_cons, foldl_nil, ← after.out_eq]
    rfl
  | cons next components ih =>
    obtain ⟨here, later⟩ := forall_mem_cons.1 whole
    have ends : atEnd (below (next :: components)) = true := by
      rfl
    obtain ⟨changed, dots, finished, after⟩ := stands_component stands here ends
    rw [finished, foldl_cons, finish_below, joined_cons]
    exact ih after later

end Loop

theorem stands_start (rooted : Bool) : Stands rooted [] (rootText rooted) (rootText rooted).length := by
  have normal : Normal rooted 0 [] :=
    ⟨fun name member => absurd member not_mem_nil, fun _ => rfl⟩
  have text : normalText rooted 0 [] = rootText rooted := append_nil _
  exact ⟨0, [], normal, rfl, text.symm, congrArg List.length text.symm⟩

variable {rooted : Bool} {stack : List Str}

theorem render_stack_text (filled : ∀ element ∈ stack, element ≠ []) :
    (if (render rooted stack).isEmpty then [dot] else render rooted stack) = stackText rooted stack := by
  unfold stackText
  cases rooted with
  | true =>
    rw [if_neg (by simp [render, rootText]), if_pos rfl, ← joined_intercalate]
    rfl
  | false =>
    rw [if_neg Bool.false_ne_true, ← joined_intercalate]
    by_cases empty : stack = []
    · subst empty
      rfl
    · have longer := @render_longer false stack filled empty
      rw [if_neg (by simpa using length_pos_iff.1 longer), if_neg empty]
      rfl

theorem mem_push {element : Str} (member : element ∈ pushComponent rooted stack component) :
    element ∈ stack ∨ element = parent ∨ element = component ∧ component ≠ [] := by
  unfold pushComponent at member
  split at member
  · exact .inl member
  rename_i kept
  split at member
  · split at member
    · split at member
      · rcases mem_append.1 member with old | up
        · exact .inl old
        · exact .inr (.inl (mem_singleton.1 up))
      · exact .inl (dropLast_subset _ member)
    · split at member
      · exact absurd member not_mem_nil
      · exact .inr (.inl (mem_singleton.1 member))
  · rcases mem_append.1 member with old | new
    · exact .inl old
    · exact .inr (.inr ⟨mem_singleton.1 new, fun empty => kept (.inl empty)⟩)

theorem mem_stack {element : Str}
    (member : element ∈ components.foldl (pushComponent rooted) stack) :
    element ∈ stack ∨ element = parent ∨ element ∈ components ∧ element ≠ [] := by
  induction components generalizing stack with
  | nil => exact .inl member
  | cons component components ih =>
    rcases ih member with pushed | up | ⟨later, filled⟩
    · rcases mem_push pushed with old | up | ⟨rfl, filled⟩
      · exact .inl old
      · exact .inr (.inl up)
      · exact .inr (.inr ⟨mem_cons_self, filled⟩)
    · exact .inr (.inl up)
    · exact .inr (.inr ⟨mem_cons_of_mem _ later, filled⟩)

theorem stack_filled (rooted : Bool) (components : List Str) :
    ∀ element ∈ components.foldl (pushComponent rooted) [], element ≠ [] := by
  intro element member
  rcases mem_stack member with old | rfl | ⟨_, filled⟩
  · exact absurd old not_mem_nil
  · decide
  · exact filled

theorem clean_stack (path : Str) : clean path = stackClean path := by
  cases path with
  | nil => decide
  | cons byte path =>
    have looped : ∀ rooted rest, finish rooted ⟨rest, rootText rooted, (rootText rooted).length⟩ =
        render rooted ((segments rest).foldl (pushComponent rooted) []) := by
      intro rooted rest
      obtain ⟨first, elements, same, isJoined⟩ := segments_join rest
      have whole := segments_no_slash rest
      rw [same] at whole
      have stacked := finish_stack (stands_start rooted) whole
      rw [← isJoined, ← same] at stacked
      exact stacked
    rw [clean_eq _ (cons_ne_nil _ _)]
    unfold stackClean
    by_cases isSlash : byte = slash
    · subst isSlash
      have finished := looped true path
      change finish true ⟨path, [slash], 1⟩ = _ at finished
      change (if (finish true ⟨path, [slash], 1⟩).isEmpty then [dot] else finish true ⟨path, [slash], 1⟩) =
        stackText true ((segments path).foldl (pushComponent true) [])
      rw [finished, render_stack_text (stack_filled true _)]
    · have unrooted : (decide ((byte :: path).head? = some slash)) = false := by simp [isSlash]
      have finished := looped false (byte :: path)
      change finish false ⟨byte :: path, [], 0⟩ = _ at finished
      rw [unrooted]
      change (if (finish false ⟨byte :: path, [], 0⟩).isEmpty then [dot]
        else finish false ⟨byte :: path, [], 0⟩) = _
      rw [finished, render_stack_text (stack_filled false _)]

theorem clean_idempotent (path : Str) : clean (clean path) = clean path := by
  by_cases isDot : clean path = [dot]
  · rw [isDot]
    decide
  · obtain ⟨rooted, parents, names, normal, isText, nonempty⟩ := clean_normal path isDot
    rw [isText]
    exact clean_normal_text normal nonempty

def IsText (bytes : Str) : Prop := ∃ text : List Char, bytes = encode text

theorem IsText.append {front back : Str} (isFront : IsText front) (isBack : IsText back) :
    IsText (front ++ back) := by
  obtain ⟨front, rfl⟩ := isFront
  obtain ⟨back, rfl⟩ := isBack
  exact ⟨front ++ back, (encode_append front back).symm⟩

theorem text_slash : IsText [slash] := ⟨['/'], by decide⟩

theorem text_dot : IsText [dot] := ⟨['.'], by decide⟩

theorem text_parent : IsText parent := ⟨['.', '.'], by decide⟩

theorem segments_word {word : Str} (whole : slash ∉ word) (rest : Str) :
    segments (word ++ rest) = (word ++ (segments rest).headD []) :: (segments rest).tail := by
  induction word with
  | nil =>
    obtain ⟨first, elements, same, _⟩ := segments_join rest
    rw [nil_append, same]
    rfl
  | cons byte word ih =>
    rw [mem_cons, not_or] at whole
    rw [cons_append, segments_cons_byte (Ne.symm whole.1), ih whole.2]
    rfl

theorem text_segments (text : List Char) : ∀ segment ∈ segments (encode text), IsText segment := by
  induction text with
  | nil =>
    intro segment member
    rw [mem_singleton.1 member]
    exact ⟨[], rfl⟩
  | cons char text ih =>
    obtain ⟨first, elements, same, _⟩ := segments_join (encode text)
    rw [same] at ih
    obtain ⟨isFirst, isRest⟩ := forall_mem_cons.1 ih
    rw [encode_cons]
    by_cases member : slash ∈ String.utf8EncodeChar char
    · have single := small_alone (show slash < 0x80 by decide) member
      rw [single, singleton_append, segments_cons_slash, same]
      exact forall_mem_cons.2 ⟨⟨[], rfl⟩, ih⟩
    · rw [segments_word member, same]
      refine forall_mem_cons.2 ⟨IsText.append ⟨[char], (encode_single char).symm⟩ isFirst, isRest⟩

theorem text_below (texts : ∀ element ∈ elements, IsText element) : IsText (below elements) := by
  induction elements with
  | nil => exact ⟨[], rfl⟩
  | cons first elements ih =>
    obtain ⟨isFirst, isRest⟩ := forall_mem_cons.1 texts
    exact text_slash.append (isFirst.append (ih isRest))

theorem text_joined (texts : ∀ element ∈ elements, IsText element) : IsText (joined elements) := by
  cases elements with
  | nil => exact ⟨[], rfl⟩
  | cons first elements =>
    obtain ⟨isFirst, isRest⟩ := forall_mem_cons.1 texts
    exact isFirst.append (text_below isRest)

theorem text_stack_clean (isText : IsText path) : IsText (stackClean path) := by
  obtain ⟨text, rfl⟩ := isText
  unfold stackClean stackText
  dsimp only
  rw [← joined_intercalate]
  have texts : ∀ element ∈ (segments (encode text)).foldl
      (pushComponent (decide ((encode text).head? = some slash))) [], IsText element := by
    intro element member
    rcases mem_stack member with old | rfl | ⟨isSegment, _⟩
    · exact absurd old not_mem_nil
    · exact text_parent
    · exact text_segments text element isSegment
  split
  · exact text_slash.append (text_joined texts)
  split
  · exact text_dot
  · exact text_joined texts

end Rustfs.Policy.Path
