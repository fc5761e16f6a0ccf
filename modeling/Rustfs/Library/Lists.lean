import Mathlib.Data.List.Forall2
import Mathlib.Data.List.Sort

/-!
# Lists

What the developments of this library and of the program need of lists beyond the standard
library: lists related item by item, maps that may fail, folds that keep the last item or add
to a set, sorting and filtering, and one place of a list set.
-/

namespace Rustfs.Library.Lists

open List

section Related

variable {α β γ : Type} {f : α → Option β} {items : List α} {results : List β}

theorem exists_related_of_mem {relation : α → β → Prop} {before : List α} {after : List β}
    (related : List.Forall₂ relation before after) {a : α} (member : a ∈ before) :
    ∃ b ∈ after, relation a b := by
  induction related with
  | nil => cases member
  | cons headRelated _ ih =>
    rcases mem_cons.1 member with rfl | inTail
    · exact ⟨_, mem_cons_self, headRelated⟩
    · obtain ⟨b, inAfter, holds⟩ := ih inTail
      exact ⟨b, mem_cons_of_mem _ inAfter, holds⟩

theorem map_m_eq_some :
    items.mapM f = some results ↔
      Forall₂ (fun item result => f item = some result) items results := by
  induction items generalizing results with
  | nil =>
    cases results with
    | nil => simp
    | cons result results =>
      constructor
      · intro same
        cases same
      · intro related
        cases related
  | cons item items ih =>
    simp only [mapM_cons, Option.bind_eq_bind, Option.bind_eq_some_iff, Option.pure_def,
      Option.some.injEq, ih]
    constructor
    · rintro ⟨result, first, rest, others, rfl⟩
      exact .cons first others
    · rintro (_ | ⟨first, others⟩)
      exact ⟨_, first, _, others, rfl⟩

theorem mem_of_map_some (done : items.mapM f = some results) {result : β}
    (member : result ∈ results) : ∃ item ∈ items, f item = some result :=
  exists_related_of_mem (map_m_eq_some.1 done).flip member

theorem read_of_map_some (done : items.mapM f = some results) {item : α} (member : item ∈ items) :
    ∃ result ∈ results, f item = some result :=
  exists_related_of_mem (map_m_eq_some.1 done) member

/-- A loop that reads an item and goes on with it reads all of them first, as long as neither
step has an effect but to fail. -/
theorem foldlM_read (read : α → Option β) (step : γ → β → Option γ) (items : List α) :
    ∀ state, items.foldlM (fun state item => (read item).bind (step state)) state =
      (items.mapM read).bind fun values => values.foldlM step state := by
  induction items with
  | nil => exact fun _ => rfl
  | cons item rest ih =>
    intro state
    rw [foldlM_cons, mapM_cons]
    cases read item with
    | none => rfl
    | some value =>
      change ((step state value).bind fun next =>
        rest.foldlM (fun state item => (read item).bind (step state)) next) =
          ((rest.mapM read).bind fun values => some (value :: values)).bind _
      cases stepped : step state value with
      | none =>
        cases rest.mapM read with
        | none => rfl
        | some values =>
          change none = (step state value).bind _
          rw [stepped]
          rfl
      | some next =>
        rw [Option.bind_some, ih]
        cases rest.mapM read with
        | none => rfl
        | some values =>
          change _ = (step state value).bind _
          rw [stepped]
          rfl

end Related

section Folds

variable {α β : Type}

theorem foldl_last (f : α → β) (items : List α) (init : β) :
    items.foldl (fun _ item => f item) init = (items.getLast?.map f).getD init := by
  rcases eq_nil_or_concat items with rfl | ⟨front, last, rfl⟩
  · rfl
  · rw [concat_eq_append, foldl_append, getLast?_append]
    rfl

theorem mem_insert_all [DecidableEq α] {item : α} {items others : List α} :
    item ∈ items.foldl (fun all item => all.insert item) others ↔ item ∈ others ∨ item ∈ items := by
  induction items generalizing others with
  | nil => simp
  | cons first items ih =>
    rw [foldl_cons, ih, mem_insert_iff, mem_cons]
    tauto

theorem flatten_singletons (items : List α) : (items.map fun item => [item]).flatten = items := by
  induction items with
  | nil => rfl
  | cons item items ih => simp [ih]

theorem flat_map_filter (keeps : α → Bool) (values : α → List β) (items : List α) :
    (items.flatMap fun item => if keeps item then values item else []) =
      (items.filter keeps).flatMap values := by
  induction items with
  | nil => rfl
  | cons item rest ih =>
    rw [flatMap_cons, filter_cons, ih]
    split <;> rfl

end Folds

section Sorting

variable {α : Type} (p : α → Bool) {r : α → α → Prop} [DecidableRel r] [IsTrans α r]

theorem filter_ordered_insert {item : α} {items : List α} (sorted : items.Pairwise r) :
    (items.orderedInsert r item).filter p =
      if p item then (items.filter p).orderedInsert r item else items.filter p := by
  induction items with
  | nil => cases kept : p item <;> simp [kept]
  | cons first items ih =>
    obtain ⟨before, sorted⟩ := pairwise_cons.1 sorted
    by_cases least : r item first
    · rw [orderedInsert_cons_of_le _ _ least, filter_cons]
      split
      · have front : ∀ other ∈ (first :: items).filter p, r item other := by
          intro other member
          rcases mem_cons.1 (mem_of_mem_filter member) with rfl | behind
          · exact least
          · exact IsTrans.trans _ _ _ least (before other behind)
        cases isRest : (first :: items).filter p with
        | nil => rfl
        | cons other rest =>
          rw [orderedInsert_cons_of_le _ _ (front other (isRest ▸ mem_cons_self))]
      · rfl
    · rw [orderedInsert_of_not_le _ _ least, filter_cons, filter_cons, ih sorted]
      split_ifs
      · rw [orderedInsert_of_not_le _ _ least]
      all_goals rfl

theorem filter_insertion_sort [Std.Total r] (items : List α) :
    (items.insertionSort r).filter p = (items.filter p).insertionSort r := by
  induction items with
  | nil => rfl
  | cons item items ih =>
    rw [insertionSort_cons, filter_ordered_insert p (pairwise_insertionSort r items), ih,
      filter_cons]
    split <;> rfl

end Sorting

variable {Task : Type} {number other : Nat}

theorem found_set {tasks : List Task} {task one : Task}
    (moved : Task) (found : tasks[number]? = some task) (sought : tasks[other]? = some one) :
    (other = number ∧ one = task ∧ (tasks.set number moved)[number]? = some moved) ∨
      (other ≠ number ∧ (tasks.set number moved)[other]? = some one) := by
  by_cases same : other = number
  · subst same
    obtain ⟨within, _⟩ := List.getElem?_eq_some_iff.1 found
    exact .inl ⟨rfl, Option.some.inj (sought.symm.trans found), getElem?_set_self within⟩
  · exact .inr ⟨same, (getElem?_set_ne (Ne.symm same)).trans sought⟩

theorem found_append {tasks others : List Task} {task : Task}
    (found : tasks[number]? = some task) : (tasks ++ others)[number]? = some task := by
  rw [getElem?_append_left (List.getElem?_eq_some_iff.1 found).1]
  exact found

end Rustfs.Library.Lists
