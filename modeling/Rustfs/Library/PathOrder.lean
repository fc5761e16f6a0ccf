import Mathlib.Data.List.Lex
import Mathlib.Order.Lattice

/-!
# The order of joined paths

A path is a list of names, written with a separator before each name. When two
written paths are compared letter by letter, the names decide, with one
exception: where one name extends the other by a letter before the separator and
the path through the shorter name goes on, the longer name comes first.
-/

namespace Rustfs.Library

open List

variable {Letter : Type} {separator : Letter} {names others : List (List Letter)}

def joined (separator : Letter) (names : List (List Letter)) : List Letter :=
  names.flatMap fun name => separator :: name

@[simp]
theorem joined_nil : joined separator [] = [] := rfl

@[simp]
theorem joined_cons (name : List Letter) (names : List (List Letter)) :
    joined separator (name :: names) = separator :: (name ++ joined separator names) := rfl

@[simp]
theorem joined_append (names others : List (List Letter)) :
    joined separator (names ++ others) = joined separator names ++ joined separator others :=
  flatMap_append

theorem name_of_joined {name other : List Letter}
    (free : separator ∉ name) (otherFree : separator ∉ other)
    (same : name ++ joined separator names = other ++ joined separator others) : name = other := by
  induction name generalizing other with
  | nil =>
    cases other with
    | nil => rfl
    | cons letter tail =>
      cases names with
      | nil => cases same
      | cons => exact absurd mem_cons_self ((List.cons.inj same).1 ▸ otherFree)
  | cons letter tail ih =>
    cases other with
    | nil =>
      cases others with
      | nil => cases same
      | cons => exact absurd mem_cons_self ((List.cons.inj same).1 ▸ free)
    | cons first rest =>
      obtain ⟨rfl, later⟩ := List.cons.inj same
      rw [ih (fun member => free (mem_cons_of_mem _ member))
        (fun member => otherFree (mem_cons_of_mem _ member)) later]

theorem joined_injective
    (free : ∀ name ∈ names, separator ∉ name) (otherFree : ∀ name ∈ others, separator ∉ name)
    (same : joined separator names = joined separator others) : names = others := by
  induction names generalizing others with
  | nil =>
    cases others with
    | nil => rfl
    | cons => cases same
  | cons name names ih =>
    cases others with
    | nil => cases same
    | cons other others =>
      have rest := (List.cons.inj same).2
      obtain rfl := name_of_joined (free name mem_cons_self)
        (otherFree other mem_cons_self) rest
      rw [ih (fun name member => free name (mem_cons_of_mem _ member))
        (fun name member => otherFree name (mem_cons_of_mem _ member))
        (append_cancel_left rest)]

variable [LinearOrder Letter]

/-- At the first names that differ, the first path has the smaller one. -/
inductive Precedes : List (List Letter) → List (List Letter) → Prop
  | here {name other : List Letter} {names others : List (List Letter)} (less : name < other) :
      Precedes (name :: names) (other :: others)
  | deeper {shared : List Letter} {names others : List (List Letter)} (later : Precedes names others) :
      Precedes (shared :: names) (shared :: others)

theorem not_precedes_nil {path : List (List Letter)} : ¬Precedes path [] := by
  intro precedes
  cases precedes

/-- What comes before a path comes before the folder it ends in, or is inside
that folder under a smaller name. -/
theorem precedes_concat {path names : List (List Letter)} {name : List Letter}
    (precedes : Precedes path (names ++ [name])) :
    Precedes path names ∨ ∃ other rest, path = names ++ other :: rest ∧ other < name := by
  induction names generalizing path with
  | nil =>
    cases precedes with
    | here less => exact .inr ⟨_, _, rfl, less⟩
    | deeper later => cases later
  | cons shared names ih =>
    cases precedes with
    | here less => exact .inl (.here less)
    | deeper later =>
      rcases ih later with before | ⟨other, rest, rfl, less⟩
      · exact .inl (.deeper before)
      · exact .inr ⟨other, rest, rfl, less⟩

/-- At the first names that differ, the first path extends the name of the second
by a letter before the separator, and the second path goes on. -/
inductive Overtakes (separator : Letter) : List (List Letter) → List (List Letter) → Prop
  | here {name tail next : List Letter} {letter : Letter} {names others : List (List Letter)}
      (less : letter < separator) :
      Overtakes separator ((name ++ letter :: tail) :: names) (name :: next :: others)
  | deeper {shared : List Letter} {names others : List (List Letter)}
      (later : Overtakes separator names others) :
      Overtakes separator (shared :: names) (shared :: others)

theorem Overtakes.split {path other : List (List Letter)} (overtakes : Overtakes separator path other) :
    ∃ shared name letter tail names next others, letter < separator ∧
      path = shared ++ (name ++ letter :: tail) :: names ∧
        other = shared ++ name :: next :: others := by
  induction overtakes with
  | here less => exact ⟨[], _, _, _, _, _, _, less, rfl, rfl⟩
  | @deeper first _ _ _ ih =>
    obtain ⟨shared, name, letter, tail, names, next, others, less, rfl, rfl⟩ := ih
    exact ⟨first :: shared, name, letter, tail, names, next, others, less, rfl, rfl⟩

theorem joined_lt_of_lt {name other : List Letter} (names others : List (List Letter))
    (free : separator ∉ name) (less : other < name) :
    other ++ joined separator others < name ++ joined separator names ∨
      ∃ letter tail next rest, name = other ++ letter :: tail ∧ letter < separator ∧
        others = next :: rest := by
  induction other generalizing name with
  | nil =>
    cases name with
    | nil => exact absurd less (lt_irrefl _)
    | cons letter tail =>
      cases others with
      | nil => exact .inl (nil_lt_cons _ _)
      | cons next rest =>
        have different : letter ≠ separator := by
          rintro rfl
          exact free mem_cons_self
        rcases lt_or_gt_of_ne different with before | after
        · exact .inr ⟨letter, tail, next, rest, rfl, before, rfl⟩
        · exact .inl (cons_lt_cons_iff.2 (.inl after))
  | cons first other ih =>
    cases name with
    | nil => exact absurd less (not_lt_nil _)
    | cons letter tail =>
      rcases cons_lt_cons_iff.1 less with before | ⟨rfl, later⟩
      · exact .inl (cons_lt_cons_iff.2 (.inl before))
      · rcases ih (fun member => free (mem_cons_of_mem _ member)) later with
          rest | ⟨second, rest, next, others, rfl, before, rfl⟩
        · exact .inl (cons_lt_cons_iff.2 (.inr ⟨rfl, rest⟩))
        · exact .inr ⟨second, rest, next, others, rfl, before, rfl⟩

theorem joined_le_cases (free : ∀ name ∈ names, separator ∉ name)
    (le : joined separator names ≤ joined separator others) :
    names <+: others ∨ Precedes names others ∨ Overtakes separator names others := by
  induction names generalizing others with
  | nil => exact .inl List.nil_prefix
  | cons name names ih =>
    cases others with
    | nil => exact absurd le (not_le.2 (nil_lt_cons _ _))
    | cons other others =>
      have rest : name ++ joined separator names ≤ other ++ joined separator others := by
        refine not_lt.1 fun less => not_lt.2 le ?_
        exact cons_lt_cons_iff.2 (.inr ⟨rfl, less⟩)
      rcases lt_trichotomy name other with less | rfl | greater
      · exact .inr (.inl (.here less))
      · have later : joined separator names ≤ joined separator others :=
          not_lt.1 fun less => not_lt.2 rest (append_left_lt less)
        rcases ih (fun name member => free name (mem_cons_of_mem _ member)) later with
          leads | precedes | overtakes
        · exact .inl ((prefix_append_right_inj [name]).2 leads)
        · exact .inr (.inl (.deeper precedes))
        · exact .inr (.inr (.deeper overtakes))
      · rcases joined_lt_of_lt names others (free name mem_cons_self) greater with
          less | ⟨letter, tail, next, others, rfl, before, rfl⟩
        · exact absurd rest (not_le.2 less)
        · exact .inr (.inr (.here before))

end Rustfs.Library
