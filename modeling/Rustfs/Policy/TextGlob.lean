import Rustfs.Library.Utf8
import Rustfs.Policy.Wildcard

/-!
# Wildcards and characters

The matcher reads bytes, so its language is one of byte strings: a `?` stands for one
byte. The language over characters is the same where no character is longer than a byte,
or where the pattern has no `?`: a star may stop inside a character, but what follows it in the
pattern begins with a whole character, or is another star.
-/

namespace Rustfs.Policy.Wildcard

open List Library Library.Utf8

def charToken (char : Char) : Glob.Token Char :=
  if char = '?' then .one else if char = '*' then .many else .literal char

def CoversText (pattern name : List Char) : Prop := Glob.Matches (pattern.map charToken) name

theorem str_eq (text : String) : str text = encode text.toList := bytes_of_string text

theorem star_bytes : String.utf8EncodeChar '*' = [star] := by decide

theorem question_bytes : String.utf8EncodeChar '?' = [questionMark] := by decide

theorem plain_char {char : Char} (notStar : char ≠ '*') (notQuestion : char ≠ '?') :
    Plain (String.utf8EncodeChar char) := by
  have apart : ∀ {other : Char} {byte : UInt8}, byte < 0x80 → String.utf8EncodeChar other = [byte] →
      char ≠ other → byte ∉ String.utf8EncodeChar char := by
    intro other byte small single different member
    have same : encode [char] = encode [other] := by
      rw [encode_single, encode_single, small_alone small member, single]
    exact different (List.cons.inj (encode_injective same)).1
  intro byte member
  constructor
  · rintro rfl
    exact apart (by decide) star_bytes notStar member
  · rintro rfl
    exact apart (by decide) question_bytes notQuestion member

theorem char_token_literal {char : Char} (notStar : char ≠ '*') (notQuestion : char ≠ '?') :
    charToken char = .literal char := by
  unfold charToken
  rw [if_neg notQuestion, if_neg notStar]

section Front

variable {rest name : Str}

theorem covers_star : Covers (star :: rest) name ↔ ∃ front back, name = front ++ back ∧ Covers rest back := by
  exact Iff.rfl

theorem covers_question :
    Covers (questionMark :: rest) name ↔ ∃ byte back, name = byte :: back ∧ Covers rest back := by
  exact Iff.rfl

theorem covers_word {word : Str} (plain : Plain word) :
    Covers (word ++ rest) name ↔ ∃ back, name = word ++ back ∧ Covers rest back := by
  rw [covers_append]
  constructor
  · rintro ⟨front, back, rfl, isWord, covered⟩
    rw [covers_plain plain] at isWord
    exact ⟨back, by rw [isWord], covered⟩
  · rintro ⟨back, rfl, covered⟩
    exact ⟨word, back, rfl, (covers_plain plain word).2 rfl, covered⟩

end Front

def WholeCharacters (pattern name : List Char) : Prop := '?' ∉ pattern ∨ ∀ char ∈ name, Ascii char

section Languages

variable {pattern name : List Char}

theorem covers_of_text (whole : WholeCharacters pattern name) (covered : CoversText pattern name) :
    Covers (encode pattern) (encode name) := by
  unfold CoversText at covered
  induction pattern generalizing name with
  | nil =>
    obtain rfl : name = [] := covered
    rfl
  | cons char pattern ih =>
    rw [map_cons] at covered
    have later : ∀ {back}, back.Subset name → WholeCharacters pattern back := by
      intro back inside
      exact whole.imp (fun absent member => absent (mem_cons_of_mem _ member))
        (fun ascii char member => ascii char (inside member))
    rw [encode_cons]
    by_cases isStar : char = '*'
    · subst isStar
      obtain ⟨front, back, rfl, covered⟩ := covered
      rw [star_bytes, encode_append]
      exact covers_star.2 ⟨encode front, encode back, rfl,
        ih (later (subset_append_right _ _)) covered⟩
    by_cases isQuestion : char = '?'
    · subst isQuestion
      obtain ⟨first, back, rfl, covered⟩ := covered
      have ascii : Ascii first := by
        rcases whole with absent | ascii
        · exact absurd mem_cons_self absent
        · exact ascii first mem_cons_self
      rw [question_bytes, encode_cons, ascii_bytes ascii]
      exact covers_question.2 ⟨_, encode back, rfl, ih (later (subset_cons_self _ _)) covered⟩
    · rw [char_token_literal isStar isQuestion] at covered
      obtain ⟨back, rfl, covered⟩ := covered
      exact (covers_word (plain_char isStar isQuestion)).2
        ⟨encode back, rfl, ih (later (subset_cons_self _ _)) covered⟩

theorem text_of_covers {inner : Str} (isInner : Inner inner)
    (whole : '?' ∉ pattern ∨ inner = [] ∧ ∀ char ∈ name, Ascii char)
    (covered : Covers (encode pattern) (inner ++ encode name)) :
    CoversText pattern name ∧ (inner = [] ∨ pattern.head? = some '*') := by
  unfold CoversText
  induction pattern generalizing inner name with
  | nil =>
    obtain ⟨noInner, noName⟩ := append_eq_nil_iff.1 (show inner ++ encode name = [] from covered)
    refine ⟨?_, .inl noInner⟩
    exact encode_injective noName
  | cons char pattern ih =>
    rw [map_cons]
    by_cases isStar : char = '*'
    · subst isStar
      obtain ⟨front, rest, same, covered⟩ := covers_star.1 covered
      obtain ⟨first, back, left, rfl, isLeft, rfl, inside⟩ := cut_inner isInner same.symm
      have later : '?' ∉ pattern ∨ left = [] ∧ ∀ char ∈ back, Ascii char := by
        refine whole.imp (fun absent member => absent (mem_cons_of_mem _ member)) ?_
        rintro ⟨rfl, ascii⟩
        refine ⟨?_, fun char member => ascii char (mem_append_right _ member)⟩
        rw [eq_nil_iff_forall_not_mem]
        intro byte member
        exact isLeft byte member (ascii_leads ascii (inside member))
      exact ⟨⟨first, back, rfl, (ih isLeft later covered).1⟩, .inr rfl⟩
    by_cases isQuestion : char = '?'
    · subst isQuestion
      rcases whole with absent | ⟨rfl, ascii⟩
      · exact absurd mem_cons_self absent
      · obtain ⟨byte, rest, same, covered⟩ := covers_question.1 covered
        cases name with
        | nil => cases same
        | cons first back =>
          obtain ⟨isFirst, isBack⟩ := forall_mem_cons.1 ascii
          rw [nil_append, encode_cons, ascii_bytes isFirst] at same
          obtain ⟨_, rfl⟩ := List.cons.inj same
          exact ⟨⟨first, back, rfl, (ih isInner (.inr ⟨rfl, isBack⟩) covered).1⟩, .inl rfl⟩
    · rw [char_token_literal isStar isQuestion]
      obtain ⟨rest, same, covered⟩ := (covers_word (plain_char isStar isQuestion)).1 covered
      obtain ⟨lead, tail, bytes, leads, _⟩ := char_shape char
      cases inner with
      | cons head inner =>
        rw [bytes] at same
        obtain ⟨rfl, _⟩ := List.cons.inj same
        exact absurd leads (isInner head mem_cons_self)
      | nil =>
        rw [nil_append, ← encode_single] at same
        obtain ⟨back, rfl, rfl⟩ := encode_split same.symm
        have later : '?' ∉ pattern ∨ ([] : Str) = [] ∧ ∀ char ∈ back, Ascii char := by
          refine whole.imp (fun absent member => absent (mem_cons_of_mem _ member)) ?_
          rintro ⟨_, ascii⟩
          exact ⟨rfl, fun char member => ascii char (mem_append_right _ member)⟩
        exact ⟨⟨back, rfl, (ih isInner later covered).1⟩, .inl rfl⟩

theorem covers_text_iff (whole : WholeCharacters pattern name) :
    Covers (encode pattern) (encode name) ↔ CoversText pattern name := by
  constructor
  · intro covered
    have noInner : Inner [] := fun byte member => absurd member not_mem_nil
    exact (text_of_covers noInner (whole.imp id fun ascii => ⟨rfl, ascii⟩) covered).1
  · exact covers_of_text whole

end Languages

/-- The language of a pattern: a `?` stands for one byte, and for one character where the
wildcards take whole characters. -/
theorem is_match_language (pattern name : String) :
    (isMatch (str pattern) (str name) = true ↔
        Glob.Matches ((str pattern).map token) (str name)) ∧
      (WholeCharacters pattern.toList name.toList →
        (isMatch (str pattern) (str name) = true ↔ CoversText pattern.toList name.toList)) := by
  refine ⟨is_match_iff (str pattern) (str name), ?_⟩
  intro whole
  rw [is_match_iff, str_eq, str_eq]
  exact covers_text_iff whole

/-- A character of two bytes is one `?` over characters, and two of them for the matcher. -/
theorem question_mark_takes_a_byte :
    CoversText "?".toList "é".toList ∧ isMatch (str "?") (str "é") = false ∧
      ¬ CoversText "??".toList "é".toList ∧ isMatch (str "??") (str "é") = true := by
  refine ⟨⟨'é', [], rfl, rfl⟩, by decide, ?_, by decide⟩
  rintro ⟨first, rest, same, second, last, again, _⟩
  obtain ⟨_, rfl⟩ := List.cons.inj (show ['é'] = first :: rest from same)
  cases again

/-- Over whole characters the two languages agree. -/
theorem starred_name_matches :
    WholeCharacters "a*é".toList "aéé".toList ∧
      (isMatch (str "a*é") (str "aéé") = true ↔ CoversText "a*é".toList "aéé".toList) := by
  have whole : WholeCharacters "a*é".toList "aéé".toList := by
    left
    decide
  exact ⟨whole, (is_match_language "a*é" "aéé").2 whole⟩

end Rustfs.Policy.Wildcard
