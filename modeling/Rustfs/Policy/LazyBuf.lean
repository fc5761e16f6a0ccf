import Rustfs.Policy.CleanPath
import Rustfs.Policy.TextGlob
import Mathlib.Data.List.TakeDrop

/-!
# The lazily copied buffer

`LazyBuf` of `policy/utils/path.rs`, and the cleaning as it runs over it: the cursor moves back over
bytes that stay in the buffer, and the path is copied at the first byte that differs from it. An
index outside the buffer is a panic, which is `none` here. What becomes of bytes that are no text is
a parameter.
-/

namespace Rustfs.Policy.Path

open List Option Library.Utf8

structure LazyBuf where
  s : Str
  buf : Option Str
  w : Nat

namespace LazyBuf

def new (s : Str) : LazyBuf := ⟨s, none, 0⟩

def index (self : LazyBuf) (i : Nat) : Option UInt8 := (self.buf.getD self.s)[i]?

/-- A byte written to the buffer that is there. -/
def store (self : LazyBuf) (buf : Str) (c : UInt8) : Option LazyBuf :=
  if self.w < buf.length then some ⟨self.s, some (buf.set self.w c), self.w + 1⟩ else none

/-- The path up to the cursor, in a buffer as long as the path. -/
def copied (self : LazyBuf) : Option Str :=
  if self.w ≤ self.s.length then
    some (self.s.take self.w ++ List.replicate (self.s.length - self.w) 0)
  else none

def append (self : LazyBuf) (c : UInt8) : Option LazyBuf :=
  match self.buf with
  | some buf => self.store buf c
  | none =>
    if self.w < self.s.length ∧ self.s[self.w]? = some c then some { self with w := self.w + 1 }
    else self.copied.bind fun buf => self.store buf c

def appendAll (self : LazyBuf) : Str → Option LazyBuf
  | [] => some self
  | c :: rest => (self.append c).bind fun next => next.appendAll rest

def bytes (self : LazyBuf) : Str := (self.buf.getD self.s).take self.w

end LazyBuf

/-- `String::from_utf8_lossy`: a text is kept as it is. What becomes of other bytes is a
parameter. -/
def fromUtf8Lossy (replaced : Str → Str) (bytes : Str) : Str :=
  if bytes.toByteArray.IsValidUTF8 then bytes else replaced bytes

structure LazyCleaning where
  rest : Str
  out : LazyBuf
  dotdot : Nat

/-- The inner loop of a `..`, from the cursor that is left. -/
def LazyBuf.backUp (self : LazyBuf) (dotdot : Nat) : Nat → Option Nat
  | 0 => some 0
  | w + 1 =>
    if dotdot < w + 1 then
      (self.index (w + 1)).bind fun byte =>
        if byte ≠ slash then self.backUp dotdot w else some (w + 1)
    else some (w + 1)

namespace LazyCleaning

variable (rooted : Bool)

def parentStep (cleaning : LazyCleaning) : Option LazyCleaning :=
  if cleaning.dotdot < cleaning.out.w then
    (cleaning.out.backUp cleaning.dotdot (cleaning.out.w - 1)).map fun w =>
      { cleaning with rest := cleaning.rest.drop 2, out := { cleaning.out with w := w } }
  else if rooted then some { cleaning with rest := cleaning.rest.drop 2 }
  else
    (cleaning.out.appendAll (if 0 < cleaning.out.w then [slash, dot, dot] else [dot, dot])).map
      fun out => ⟨cleaning.rest.drop 2, out, out.w⟩

def elementStep (cleaning : LazyCleaning) : Option LazyCleaning :=
  let apart := if rooted then cleaning.out.w ≠ 1 else cleaning.out.w ≠ 0
  let element := cleaning.rest.takeWhile (· ≠ slash)
  (cleaning.out.appendAll (if apart then slash :: element else element)).map fun out =>
    { cleaning with rest := cleaning.rest.dropWhile (· ≠ slash), out := out }

def step (cleaning : LazyCleaning) : Option LazyCleaning :=
  if cleaning.rest.head? = some slash ∨
      (cleaning.rest.head? = some dot ∧ atEnd (cleaning.rest.drop 1)) then
    some { cleaning with rest := cleaning.rest.drop 1 }
  else if cleaning.rest.take 2 = [dot, dot] ∧ atEnd (cleaning.rest.drop 2) then
    parentStep rooted cleaning
  else elementStep rooted cleaning

def loop : (bound : Nat) → LazyCleaning → Option LazyBuf
  | 0, cleaning => some cleaning.out
  | bound + 1, cleaning =>
    if cleaning.rest.isEmpty then some cleaning.out
    else (step rooted cleaning).bind (loop bound)

end LazyCleaning

def lazyClean (replaced : Str → Str) (path : Str) : Option Str :=
  if path.isEmpty then some [dot]
  else
    let rooted : Bool := path.head? = some slash
    let start : Option LazyCleaning :=
      if rooted then ((LazyBuf.new path).append slash).map fun out => ⟨path.drop 1, out, 1⟩
      else some ⟨path, LazyBuf.new path, 0⟩
    (start.bind (LazyCleaning.loop rooted path.length)).map fun out =>
      if out.w = 0 then [dot] else fromUtf8Lossy replaced out.bytes

namespace LazyBuf

variable {self : LazyBuf} {out path : Str}

/-- The buffer stands for a text that has been written. As long as nothing was copied, the text is
a beginning of the path itself. -/
structure Holds (buffer : LazyBuf) (path out : Str) : Prop where
  source : buffer.s = path
  bytes_eq : buffer.bytes = out
  length_eq : out.length = buffer.w
  sized : ∀ buf, buffer.buf = some buf → buf.length = path.length

theorem holds_new (path : Str) : Holds (new path) path [] :=
  ⟨rfl, rfl, rfl, fun buf isBuf => by cases isBuf⟩

theorem store_holds {buf : Str} (source : self.s = path) (sized : buf.length = path.length)
    (front : buf.take self.w = out) (length : out.length = self.w) (room : self.w < path.length)
    (c : UInt8) : ∃ next, self.store buf c = some next ∧ Holds next path (out ++ [c]) := by
  unfold store
  rw [if_pos (sized.symm ▸ room)]
  refine ⟨_, rfl, source, ?_, ?_, ?_⟩
  · unfold bytes
    dsimp only
    rw [getD_some, set_eq_take_append_cons_drop, if_pos (sized.symm ▸ room), front,
      take_append, length, Nat.add_sub_cancel_left, take_of_length_le (by omega)]
    rfl
  · rw [length_append, length]
    rfl
  · rintro _ ⟨⟩
    rw [length_set, sized]

theorem append_holds (holds : Holds self path out) (room : out.length < path.length) (c : UInt8) :
    ∃ next, self.append c = some next ∧ Holds next path (out ++ [c]) := by
  obtain ⟨source, bytesEq, length, sized⟩ := holds
  have inside : self.w < path.length := length ▸ room
  unfold append
  cases isBuf : self.buf with
  | some buf =>
    unfold bytes at bytesEq
    rw [isBuf, getD_some] at bytesEq
    exact store_holds source (sized buf isBuf) bytesEq length inside c
  | none =>
    unfold bytes at bytesEq
    rw [isBuf, getD_none, source] at bytesEq
    dsimp only
    split
    · rename_i here
      rw [source] at here
      refine ⟨_, rfl, source, ?_, ?_, ?_⟩
      · unfold bytes
        rw [getD_none, source, take_add_one, here.2, bytesEq]
        rfl
      · rw [length_append, length]
        rfl
      · intro buf isSome
        cases isSome
    · unfold copied
      rw [source, if_pos (Nat.le_of_lt inside), bind_some]
      apply store_holds source ?_ ?_ length inside
      · rw [length_append, length_take, length_replicate]
        omega
      · rw [take_left' (by rw [length_take]; omega), bytesEq]

theorem append_all_holds {more : Str} (holds : Holds self path out)
    (room : out.length + more.length ≤ path.length) :
    ∃ next, self.appendAll more = some next ∧ Holds next path (out ++ more) := by
  induction more generalizing self out with
  | nil =>
    rw [append_nil]
    exact ⟨self, rfl, holds⟩
  | cons c more ih =>
    rw [length_cons] at room
    obtain ⟨next, appended, after⟩ := append_holds holds (by omega) c
    obtain ⟨last, all, done⟩ := ih after (by
      rw [length_append, length_singleton]
      omega)
    refine ⟨last, ?_, ?_⟩
    · rw [appendAll, appended, bind_some, all]
    · rw [append_assoc] at done
      exact done

theorem index_holds (holds : Holds self path out) {i : Nat} (inside : i < out.length) :
    self.index i = some (out.getD i 0) := by
  obtain ⟨source, bytesEq, length, sized⟩ := holds
  have read : self.bytes[i]? = self.index i := by
    unfold bytes index
    rw [getElem?_take_of_lt (length ▸ inside)]
  rw [← read, bytesEq, getElem?_eq_getElem inside, getD_eq_getElem _ _ inside]

theorem back_up_holds (holds : Holds self path out) {dotdot width : Nat}
    (inside : width < out.length) : self.backUp dotdot width = some (Path.backUp out dotdot width) := by
  induction width with
  | zero => rfl
  | succ width ih =>
    rw [backUp, Path.backUp, index_holds holds inside, bind_some, ih (by omega)]
    by_cases above : dotdot < width + 1
    · by_cases isSlash : out.getD (width + 1) 0 = slash
      · rw [if_pos above, if_neg (not_not.2 isSlash), if_neg fun both => both.2 isSlash]
      · rw [if_pos above, if_pos isSlash, if_pos ⟨above, isSlash⟩]
    · rw [if_neg above, if_neg fun both => above both.1]

theorem rewind_holds (holds : Holds self path out) {width : Nat} (inside : width ≤ out.length) :
    Holds { self with w := width } path (out.take width) := by
  obtain ⟨source, bytesEq, length, sized⟩ := holds
  refine ⟨source, ?_, ?_, sized⟩
  · rw [← bytesEq]
    unfold bytes
    rw [take_take, Nat.min_eq_left (length ▸ inside)]
  · rw [length_take, Nat.min_eq_left inside]

end LazyBuf

theorem back_up_le (out : Str) (dotdot width : Nat) : backUp out dotdot width ≤ width := by
  induction width with
  | zero => exact Nat.le_refl _
  | succ width ih =>
    rw [backUp]
    split
    · exact Nat.le_succ_of_le ih
    · exact Nat.le_refl _

/-- Nothing but the root is written. -/
def Blank (rooted : Bool) (out : Str) : Prop := out.length = (rootText rooted).length

/-- The text fits in what has been read, and an element that begins has its slash to spare. -/
structure Room (rooted : Bool) (path : Str) (cleaning : Cleaning) : Prop where
  fits : cleaning.out.length + cleaning.rest.length ≤ path.length
  spare : atEnd cleaning.rest = false → ¬ Blank rooted cleaning.out →
    cleaning.out.length + cleaning.rest.length < path.length

structure Follows (rooted : Bool) (path : Str) (lazy : LazyCleaning) (cleaning : Cleaning) : Prop where
  rest_eq : lazy.rest = cleaning.rest
  dotdot_eq : lazy.dotdot = cleaning.dotdot
  holds : lazy.out.Holds path cleaning.out
  room : Room rooted path cleaning

section Follow

variable {rooted : Bool} {path : Str} {lazy : LazyCleaning} {cleaning : Cleaning}

theorem at_end_room {rest out : Str} {dotdot : Nat} (ends : atEnd rest = true)
    (fits : out.length + rest.length ≤ path.length) : Room rooted path ⟨rest, out, dotdot⟩ := by
  refine ⟨fits, ?_⟩
  intro inside
  rw [show atEnd rest = true from ends] at inside
  cases inside

theorem follows_parent (follows : Follows rooted path lazy cleaning)
    (isParent : cleaning.rest.take 2 = [dot, dot]) (ends : atEnd (cleaning.rest.drop 2) = true) :
    ∃ next, LazyCleaning.parentStep rooted lazy = some next ∧
      Follows rooted path next (parentStep rooted cleaning) := by
  obtain ⟨restEq, dotdotEq, holds, ⟨fits, spare⟩⟩ := follows
  have isCursor := holds.length_eq
  have twoBytes : 2 ≤ cleaning.rest.length := by
    have length := congrArg List.length isParent
    rw [length_take] at length
    change min 2 cleaning.rest.length = 2 at length
    omega
  have left : (cleaning.rest.drop 2).length = cleaning.rest.length - 2 := length_drop
  unfold LazyCleaning.parentStep parentStep
  rw [dotdotEq, restEq, ← isCursor]
  split
  · have inside : cleaning.out.length - 1 < cleaning.out.length := by omega
    have short := back_up_le cleaning.out cleaning.dotdot (cleaning.out.length - 1)
    rw [LazyBuf.back_up_holds holds inside, map_some]
    refine ⟨_, rfl, rfl, rfl, LazyBuf.rewind_holds holds (by omega), at_end_room ends ?_⟩
    unfold dropElement
    rw [length_take, left]
    omega
  split
  · exact ⟨_, rfl, rfl, rfl, holds, at_end_room ends (by omega)⟩
  · rename_i unrooted
    have isFalse : rooted = false := by simpa using unrooted
    subst isFalse
    have added : cleaning.out ++ (if 0 < cleaning.out.length then [slash, dot, dot] else [dot, dot]) =
        separated cleaning.out ++ [dot, dot] := by
      unfold separated
      by_cases empty : cleaning.out = []
      · rw [empty]
        rfl
      · rw [if_pos (length_pos_iff.2 empty), if_neg (by simpa using empty), append_assoc]
        rfl
    have enough : (separated cleaning.out ++ [dot, dot]).length + (cleaning.rest.drop 2).length ≤
        path.length := by
      have inside : atEnd cleaning.rest = false := by
        cases isRest : cleaning.rest with
        | nil =>
          rw [isRest] at twoBytes
          cases twoBytes
        | cons byte rest =>
          rw [isRest] at isParent
          obtain ⟨rfl, _⟩ := List.cons.inj isParent
          rfl
      unfold separated
      by_cases empty : cleaning.out = []
      · rw [empty] at fits ⊢
        change 2 + _ ≤ _
        omega
      · have strict := spare inside (by
          unfold Blank
          exact fun blank => empty (length_eq_zero_iff.1 blank))
        rw [if_neg (by simpa using empty)]
        simp only [length_append, length_cons, length_nil]
        omega
    have fitting : cleaning.out.length +
        (if 0 < cleaning.out.length then [slash, dot, dot] else [dot, dot]).length ≤ path.length := by
      rw [← length_append, added]
      omega
    obtain ⟨next, appended, after⟩ := LazyBuf.append_all_holds holds fitting
    rw [appended, map_some]
    rw [added] at after
    exact ⟨_, rfl, rfl, after.length_eq.symm, after, at_end_room ends enough⟩

theorem follows_element (follows : Follows rooted path lazy cleaning)
    (inside : atEnd cleaning.rest = false) :
    ∃ next, LazyCleaning.elementStep rooted lazy = some next ∧
      Follows rooted path next (elementStep rooted cleaning) := by
  obtain ⟨restEq, dotdotEq, holds, ⟨fits, spare⟩⟩ := follows
  have isCursor := holds.length_eq
  have split : (cleaning.rest.takeWhile (· ≠ slash)).length +
      (cleaning.rest.dropWhile (· ≠ slash)).length = cleaning.rest.length := by
    rw [← length_append, takeWhile_append_dropWhile]
  have isApart : (if rooted then cleaning.out.length ≠ 1 else cleaning.out.length ≠ 0) ↔
      ¬ Blank rooted cleaning.out := by
    unfold Blank
    cases rooted with
    | true | false => exact Iff.rfl
  unfold LazyCleaning.elementStep elementStep
  dsimp only
  rw [restEq, ← isCursor]
  by_cases blank : Blank rooted cleaning.out
  · have together := mt isApart.1 (not_not.2 blank)
    rw [if_neg together, if_neg together]
    obtain ⟨next, appended, after⟩ := LazyBuf.append_all_holds holds
      (show _ + (cleaning.rest.takeWhile (· ≠ slash)).length ≤ _ by omega)
    rw [appended, map_some]
    refine ⟨_, rfl, rfl, dotdotEq, after, at_end_room (at_end_drop_element _) ?_⟩
    rw [length_append]
    omega
  · have strict := spare inside blank
    rw [if_pos (isApart.2 blank), if_pos (isApart.2 blank)]
    obtain ⟨next, appended, after⟩ := LazyBuf.append_all_holds holds
      (show _ + (slash :: cleaning.rest.takeWhile (· ≠ slash)).length ≤ _ by
        rw [length_cons]
        omega)
    rw [appended, map_some]
    rw [append_cons] at after
    refine ⟨_, rfl, rfl, dotdotEq, after, at_end_room (at_end_drop_element _) ?_⟩
    rw [length_append, length_append, length_singleton]
    omega

theorem follows_step (follows : Follows rooted path lazy cleaning) (more : cleaning.rest ≠ []) :
    ∃ next, LazyCleaning.step rooted lazy = some next ∧
      Follows rooted path next (cleanStep rooted cleaning) := by
  have filled := length_pos_iff.2 more
  obtain ⟨restEq, dotdotEq, holds, ⟨fits, spare⟩⟩ := follows
  unfold LazyCleaning.step cleanStep
  rw [restEq]
  split
  · refine ⟨_, rfl, rfl, dotdotEq, holds, ⟨?_, ?_⟩⟩
    · dsimp only
      rw [length_drop]
      omega
    · intro _ _
      dsimp only
      rw [length_drop]
      omega
  rename_i ordinary
  split
  · rename_i isParent
    exact follows_parent ⟨restEq, dotdotEq, holds, ⟨fits, spare⟩⟩ isParent.1 isParent.2
  · refine follows_element ⟨restEq, dotdotEq, holds, ⟨fits, spare⟩⟩ ?_
    unfold atEnd
    rw [Bool.or_eq_false_iff]
    refine ⟨by simpa using more, decide_eq_false fun isSlash => ordinary (.inl isSlash)⟩

theorem follows_loop {bound : Nat} (follows : Follows rooted path lazy cleaning) :
    ∃ out, LazyCleaning.loop rooted bound lazy = some out ∧
      out.Holds path (cleanLoop rooted bound cleaning) := by
  induction bound generalizing lazy cleaning with
  | zero => exact ⟨lazy.out, rfl, follows.holds⟩
  | succ bound ih =>
    rw [LazyCleaning.loop, cleanLoop, follows.rest_eq]
    split
    · exact ⟨lazy.out, rfl, follows.holds⟩
    · rename_i more
      obtain ⟨next, stepped, after⟩ := follows_step follows (by simpa using more)
      rw [stepped, bind_some]
      exact ih after

end Follow

theorem lossy_text {bytes : Str} (replaced : Str → Str) (isText : IsText bytes) :
    fromUtf8Lossy replaced bytes = bytes := by
  obtain ⟨text, rfl⟩ := isText
  unfold fromUtf8Lossy
  rw [if_pos ⟨text, rfl⟩]

theorem follows_start (path : Str) (nonempty : path ≠ []) :
    let rooted : Bool := path.head? = some slash
    ∃ lazy, (if rooted then ((LazyBuf.new path).append slash).map fun out =>
        (⟨path.drop 1, out, 1⟩ : LazyCleaning)
      else some ⟨path, LazyBuf.new path, 0⟩) = some lazy ∧
      Follows rooted path lazy
        (if rooted then ⟨path.drop 1, [slash], 1⟩ else ⟨path, [], 0⟩) := by
  intro rooted
  cases isRooted : rooted with
  | true =>
    have filled := length_pos_iff.2 nonempty
    obtain ⟨out, appended, holds⟩ := LazyBuf.append_holds (LazyBuf.holds_new path) filled slash
    rw [if_pos rfl, if_pos rfl, appended, map_some]
    refine ⟨_, rfl, rfl, rfl, holds, ⟨?_, ?_⟩⟩
    · dsimp only
      rw [length_drop, length_singleton]
      omega
    · exact fun _ notBlank => absurd rfl notBlank
  | false =>
    rw [if_neg Bool.false_ne_true, if_neg Bool.false_ne_true]
    refine ⟨_, rfl, rfl, rfl, LazyBuf.holds_new path, ⟨?_, ?_⟩⟩
    · exact (Nat.zero_add _).le
    · exact fun _ notBlank => absurd rfl notBlank

theorem lazy_clean_eq (replaced : Str → Str) {path : Str} (isText : IsText path) :
    lazyClean replaced path = some (clean path) := by
  have cleaned : IsText (clean path) := clean_stack path ▸ text_stack_clean isText
  unfold lazyClean
  by_cases empty : path = []
  · subst empty
    rfl
  have filled : ¬ path.isEmpty = true := by simpa using empty
  rw [if_neg filled]
  dsimp only
  obtain ⟨lazy, started, follows⟩ := follows_start path empty
  obtain ⟨out, looped, holds⟩ := @follows_loop _ _ _ _ path.length follows
  rw [started, bind_some, looped, map_some]
  unfold clean at cleaned ⊢
  rw [if_neg filled] at cleaned ⊢
  dsimp only at cleaned ⊢
  rw [← holds.bytes_eq] at cleaned ⊢
  have cursor : out.bytes.length = out.w := holds.bytes_eq ▸ holds.length_eq
  by_cases unwritten : out.bytes = []
  · have isZero : out.w = 0 := by rw [← cursor, unwritten, length_nil]
    rw [if_pos isZero, unwritten]
    rfl
  · have moved : ¬ out.w = 0 := by
      rw [← cursor]
      exact fun isZero => unwritten (length_eq_zero_iff.1 isZero)
    have written : ¬ out.bytes.isEmpty = true := by simpa using unwritten
    rw [if_neg written] at cleaned ⊢
    rw [if_neg moved, lossy_text replaced cleaned]

/-- For every string the cleaned path is the text of its component stack, and cleaning it again
changes nothing. -/
theorem clean_is_component_stack (replaced : Str → Str) (path : String) :
    lazyClean replaced (str path) = some (stackClean (str path)) ∧
      ∃ cleaned : String, str cleaned = stackClean (str path) ∧
        lazyClean replaced (str cleaned) = some (str cleaned) := by
  have isText : IsText (str path) := ⟨path.toList, Wildcard.str_eq path⟩
  obtain ⟨text, isStack⟩ := text_stack_clean isText
  have cleaned : str (String.ofList text) = stackClean (str path) := by
    rw [Wildcard.str_eq, String.toList_ofList, isStack]
  refine ⟨?_, String.ofList text, cleaned, ?_⟩
  · rw [lazy_clean_eq replaced isText, clean_stack]
  · rw [cleaned, lazy_clean_eq replaced ⟨text, isStack⟩, ← clean_stack, clean_idempotent]

end Rustfs.Policy.Path
