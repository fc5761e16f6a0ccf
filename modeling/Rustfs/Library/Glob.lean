import Mathlib.Data.List.Forall2

/-!
# Glob patterns

A pattern is a list of tokens: a literal symbol, one arbitrary symbol, or any
number of them. `Matches` is its language. Patterns compose by concatenation, a
literal text is matched by itself alone, and what is matched by the other tokens
can be exchanged.
-/

namespace Rustfs.Library.Glob

open List

inductive Token (α : Type)
  | literal (symbol : α)
  | one
  | many

variable {α : Type}

def Matches : List (Token α) → List α → Prop
  | [], text => text = []
  | .literal symbol :: pattern, text => ∃ rest, text = symbol :: rest ∧ Matches pattern rest
  | .one :: pattern, text => ∃ symbol rest, text = symbol :: rest ∧ Matches pattern rest
  | .many :: pattern, text => ∃ front rest, text = front ++ rest ∧ Matches pattern rest

theorem matches_append (left right : List (Token α)) (text : List α) :
    Matches (left ++ right) text ↔
      ∃ front back, text = front ++ back ∧ Matches left front ∧ Matches right back := by
  induction left generalizing text with
  | nil =>
    constructor
    · intro matched
      exact ⟨[], text, rfl, rfl, matched⟩
    · rintro ⟨front, back, rfl, rfl, matched⟩
      exact matched
  | cons token left ih =>
    cases token with
    | literal symbol =>
      simp only [cons_append, Matches, ih]
      constructor
      · rintro ⟨rest, rfl, front, back, rfl, first, second⟩
        exact ⟨symbol :: front, back, rfl, ⟨front, rfl, first⟩, second⟩
      · rintro ⟨_, back, rfl, ⟨front, rfl, first⟩, second⟩
        exact ⟨front ++ back, rfl, front, back, rfl, first, second⟩
    | one =>
      simp only [cons_append, Matches, ih]
      constructor
      · rintro ⟨symbol, rest, rfl, front, back, rfl, first, second⟩
        exact ⟨symbol :: front, back, rfl, ⟨symbol, front, rfl, first⟩, second⟩
      · rintro ⟨_, back, rfl, ⟨symbol, front, rfl, first⟩, second⟩
        exact ⟨symbol, front ++ back, rfl, front, back, rfl, first, second⟩
    | many =>
      simp only [cons_append, Matches, ih]
      constructor
      · rintro ⟨skipped, rest, rfl, front, back, rfl, first, second⟩
        exact ⟨skipped ++ front, back, by simp, ⟨skipped, front, rfl, first⟩, second⟩
      · rintro ⟨_, back, rfl, ⟨skipped, front, rfl, first⟩, second⟩
        exact ⟨skipped, front ++ back, by simp, front, back, rfl, first, second⟩

theorem matches_literal (word text : List α) : Matches (word.map .literal) text ↔ text = word := by
  induction word generalizing text with
  | nil => exact Iff.rfl
  | cons symbol word ih =>
    simp only [map_cons, Matches, ih]
    constructor
    · rintro ⟨rest, rfl, rfl⟩
      rfl
    · rintro rfl
      exact ⟨word, rfl, rfl⟩

section Symbols

variable [DecidableEq α] (symbol : α) {pattern : List (Token α)} {text : List α}
  {related : α → α → Prop}

/-- How often a pattern asks for the symbol. -/
def asked : List (Token α) → Nat
  | [] => 0
  | .literal other :: pattern => (if other = symbol then 1 else 0) + asked pattern
  | .one :: pattern => asked pattern
  | .many :: pattern => asked pattern

theorem matches_asked (matched : Matches pattern text) :
    asked symbol pattern ≤ text.count symbol := by
  induction pattern generalizing text with
  | nil => exact Nat.zero_le _
  | cons token pattern ih =>
    cases token with
    | literal other =>
      obtain ⟨rest, rfl, matched⟩ := matched
      have less := ih matched
      simp only [asked, count_cons, beq_iff_eq]
      omega
    | one =>
      obtain ⟨first, rest, rfl, matched⟩ := matched
      exact Nat.le_trans (ih matched) count_le_count_cons
    | many =>
      obtain ⟨front, rest, rfl, matched⟩ := matched
      rw [List.count_append]
      exact Nat.le_trans (ih matched) (Nat.le_add_left _ _)

variable {symbol} {other : α} (different : other ≠ symbol)

def exchanged (symbol other : α) (text : List α) : List α :=
  text.map fun this => if this = symbol then other else this

include different

theorem exchanged_count (text : List α) : (exchanged symbol other text).count symbol = 0 := by
  rw [count_eq_zero]
  intro member
  obtain ⟨this, _, isSymbol⟩ := mem_map.1 member
  split at isSymbol
  · exact different isSymbol
  · rename_i notSymbol
    exact notSymbol isSymbol

omit different in
theorem exchanged_related (same : ∀ this, related this this)
    (swapped : related other symbol) (text : List α) :
    List.Forall₂ related (exchanged symbol other text) text := by
  induction text with
  | nil => exact .nil
  | cons this text ih =>
    refine .cons ?_ ih
    dsimp only
    split
    · rename_i isSymbol
      exact isSymbol ▸ swapped
    · exact same this

/-- A text that is matched can be brought down to the symbols that are asked for. -/
theorem matches_lowered (same : ∀ this, related this this) (swapped : related other symbol)
    (matched : Matches pattern text) :
    ∃ lowered, List.Forall₂ related lowered text ∧ lowered.count symbol = asked symbol pattern ∧
      Matches pattern lowered := by
  induction pattern generalizing text with
  | nil =>
    obtain rfl : text = [] := matched
    exact ⟨[], .nil, rfl, rfl⟩
  | cons token pattern ih =>
    cases token with
    | literal first =>
      obtain ⟨rest, rfl, matched⟩ := matched
      obtain ⟨lowered, alike, counted, stays⟩ := ih matched
      refine ⟨first :: lowered, .cons (same first) alike, ?_, lowered, rfl, stays⟩
      simp only [asked, count_cons, beq_iff_eq, counted]
      omega
    | one =>
      obtain ⟨first, rest, rfl, matched⟩ := matched
      obtain ⟨lowered, alike, counted, stays⟩ := ih matched
      have taken := exchanged_count different [first]
      refine ⟨exchanged symbol other [first] ++ lowered, ?_, ?_, _, lowered, rfl, stays⟩
      · exact rel_append (exchanged_related same swapped [first]) alike
      · rw [List.count_append, taken, counted, Nat.zero_add]
        rfl
    | many =>
      obtain ⟨front, rest, rfl, matched⟩ := matched
      obtain ⟨lowered, alike, counted, stays⟩ := ih matched
      have taken := exchanged_count different front
      refine ⟨exchanged symbol other front ++ lowered, ?_, ?_, _, lowered, rfl, stays⟩
      · exact rel_append (exchanged_related same swapped front) alike
      · rw [List.count_append, taken, counted, Nat.zero_add]
        rfl

end Symbols

end Rustfs.Library.Glob
