import Mathlib.Order.Lattice
import Mathlib.Data.List.Basic

/-!
# The first least item

A scan that replaces its choice only by an item with a smaller key ends with the first of the
items whose key is least.
-/

namespace Rustfs.Library

open List

theorem perm_cons_of_mem {α : Type} {item : α} {items : List α} (member : item ∈ items) :
    ∃ rest, (item :: rest).Perm items := by
  obtain ⟨front, back, rfl⟩ := append_of_mem member
  exact ⟨front ++ back, perm_middle.symm⟩

variable {α κ : Type} [LinearOrder κ] (key : α → κ)

/-- The items in front of the choice have greater keys, those behind it no smaller ones. So it is
the first of the least ones, and unique as a place of the list. -/
def FirstLeast (items : List α) (best : α) : Prop :=
  ∃ front back, items = front ++ best :: back ∧ (∀ item ∈ front, key best < key item) ∧
    ∀ item ∈ back, key best ≤ key item

namespace FirstLeast

variable {key} {items : List α} {best : α} {more : List α}

theorem mem (least : FirstLeast key items best) : best ∈ items := by
  obtain ⟨front, back, rfl, _, _⟩ := least
  exact mem_append_right _ mem_cons_self

theorem le (least : FirstLeast key items best) {item : α} (member : item ∈ items) :
    key best ≤ key item := by
  obtain ⟨front, back, rfl, before, after⟩ := least
  rcases mem_append.1 member with inFront | behind
  · exact le_of_lt (before item inFront)
  · rcases mem_cons.1 behind with rfl | inBack
    · exact le_rfl
    · exact after item inBack

theorem append_left (least : FirstLeast key items best)
    (after : ∀ item ∈ more, key best ≤ key item) : FirstLeast key (items ++ more) best := by
  obtain ⟨front, back, rfl, before, behind⟩ := least
  refine ⟨front, back ++ more, by simp, before, fun item member => ?_⟩
  rcases mem_append.1 member with inBack | inMore
  · exact behind item inBack
  · exact after item inMore

theorem append_right (least : FirstLeast key items best)
    (before : ∀ item ∈ more, key best < key item) : FirstLeast key (more ++ items) best := by
  obtain ⟨front, back, rfl, inFront, after⟩ := least
  refine ⟨more ++ front, back, by simp, fun item member => ?_, after⟩
  rcases mem_append.1 member with inMore | member
  · exact before item inMore
  · exact inFront item member

theorem append_cases (least : FirstLeast key (items ++ more) best) :
    FirstLeast key items best ∨
      FirstLeast key more best ∧ ∀ item ∈ items, key best < key item := by
  obtain ⟨front, back, same, before, after⟩ := least
  rcases append_eq_append_iff.1 same with ⟨middle, isFront, isMore⟩ | ⟨middle, isItems, isBack⟩
  · refine .inr ⟨⟨middle, back, isMore, fun item member => ?_, after⟩, fun item member => ?_⟩
    all_goals exact before item (by simp [isFront, member])
  · cases middle with
    | nil =>
      rw [append_nil] at isItems
      refine .inr ⟨⟨[], back, isBack.symm, fun item member => (nomatch member), after⟩, ?_⟩
      rwa [isItems]
    | cons first middle =>
      obtain ⟨rfl, rfl⟩ := List.cons.inj isBack
      exact .inl ⟨front, middle, isItems, before, fun item member =>
        after item (mem_append_left _ member)⟩

theorem append_item (least : FirstLeast key items best) (item : α) :
    FirstLeast key (items ++ [item]) (if key item < key best then item else best) := by
  by_cases smaller : key item < key best
  · rw [if_pos smaller]
    exact ⟨items, [], rfl, fun other member => lt_of_lt_of_le smaller (least.le member),
      fun other member => (nomatch member)⟩
  · rw [if_neg smaller]
    apply least.append_left
    intro other member
    rw [mem_singleton.1 member]
    exact le_of_not_gt smaller

theorem foldl (least : FirstLeast key items best) (rest : List α) :
    FirstLeast key (items ++ rest)
      (rest.foldl (fun best item => if key item < key best then item else best) best) := by
  induction rest generalizing items best with
  | nil => rwa [append_nil]
  | cons item rest ih =>
    rw [append_cons]
    exact ih (least.append_item item)

theorem singleton (key : α → κ) (item : α) : FirstLeast key [item] item :=
  ⟨[], [], rfl, fun _ member => (nomatch member), fun _ member => (nomatch member)⟩

theorem unique {other : α} (least : FirstLeast key items best) (also : FirstLeast key items other) :
    best = other := by
  obtain ⟨front, back, rfl, before, after⟩ := least
  obtain ⟨front', back', same, before', after'⟩ := also
  rcases append_eq_append_iff.1 same with ⟨middle, isFront, isBack⟩ | ⟨middle, isFront, isBack⟩
  · cases middle with
    | nil => exact (List.cons.inj isBack).1
    | cons first middle =>
      obtain ⟨rfl, rfl⟩ := List.cons.inj isBack
      have greater := before' best (by simp [isFront])
      exact absurd (after other (by simp)) (not_le_of_gt greater)
  · cases middle with
    | nil => exact (List.cons.inj isBack).1.symm
    | cons first middle =>
      obtain ⟨rfl, rfl⟩ := List.cons.inj isBack
      have greater := before other (by simp [isFront])
      exact absurd (after' best (by simp)) (not_le_of_gt greater)

end FirstLeast

end Rustfs.Library
