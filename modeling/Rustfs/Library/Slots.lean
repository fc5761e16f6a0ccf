import Mathlib.Data.List.Induction
import Mathlib.Data.List.Nodup
import Mathlib.Data.List.Pairwise
import Mathlib.Data.List.Perm.Basic

/-!
# Slots that are contended for

Items come one after another and each wants the slot of its key. A newcomer that finds the
slot taken is settled against the occupant: one of the two stays, or the whole run fails. With
a preference that the settlement respects, the slots do not depend on the order of the items.
-/

namespace Rustfs.Library.Slots

open List Option

variable {K V : Type} [DecidableEq K] (settle : K → V → V → Option V) {seen : List (K × V)}

/-- `settle key newcomer occupant` is who stays. -/
def place : List (K × V) → K × V → Option (List (K × V))
  | [], item => some [item]
  | slot :: rest, item =>
    if slot.1 = item.1 then
      (settle slot.1 item.2 slot.2).map fun value => (slot.1, value) :: rest
    else (place rest item).map fun after => slot :: after

def placeAll (slots items : List (K × V)) : Option (List (K × V)) := items.foldlM (place settle) slots

/-- The slots after some items: one for each key, taken by an item that no item of the key is
preferred to. -/
structure Held (prefers : K → V → V → Prop) (seen slots : List (K × V)) : Prop where
  distinct : slots.Pairwise fun left right => left.1 ≠ right.1
  within : ∀ slot ∈ slots, slot ∈ seen
  covers : ∀ item ∈ seen, ∃ slot ∈ slots, slot.1 = item.1 ∧ prefers item.1 slot.2 item.2

/-- Who stays is one of the two, and is preferred to both. The preference need not be total, and
need not tell all items apart. -/
structure Fair (prefers : K → V → V → Prop) : Prop where
  refl : ∀ key value, prefers key value value
  trans : ∀ key first second third, prefers key first second → prefers key second third →
    prefers key first third
  stays : ∀ key newcomer occupant value, settle key newcomer occupant = some value →
    (value = newcomer ∨ value = occupant) ∧ prefers key value newcomer ∧ prefers key value occupant

variable {settle} {prefers : K → V → V → Prop} {slots after : List (K × V)} {item : K × V}

theorem place_cases (placed : place settle slots item = some after) :
    (after = slots ++ [item] ∧ ∀ slot ∈ slots, slot.1 ≠ item.1) ∨
      ∃ front value occupant behind, slots = front ++ (item.1, occupant) :: behind ∧
        after = front ++ (item.1, value) :: behind ∧
        settle item.1 item.2 occupant = some value := by
  induction slots generalizing after with
  | nil =>
    cases placed
    exact .inl ⟨rfl, by simp⟩
  | cons slot rest ih =>
    rw [place] at placed
    by_cases same : slot.1 = item.1
    · rw [if_pos same] at placed
      obtain ⟨value, settled, rfl⟩ := map_eq_some_iff.1 placed
      refine .inr ⟨[], value, slot.2, rest, ?_, ?_, same ▸ settled⟩
      all_goals
        rw [← same]
        rfl
    · rw [if_neg same] at placed
      obtain ⟨tail, inTail, rfl⟩ := map_eq_some_iff.1 placed
      rcases ih inTail with ⟨rfl, fresh⟩ | ⟨front, value, occupant, behind, rfl, rfl, settled⟩
      · exact .inl ⟨rfl, forall_mem_cons.2 ⟨same, fresh⟩⟩
      · exact .inr ⟨slot :: front, value, occupant, behind, rfl, rfl, settled⟩

theorem place_distinct (distinct : slots.Pairwise fun left right => left.1 ≠ right.1)
    (placed : place settle slots item = some after) :
    after.Pairwise fun left right => left.1 ≠ right.1 := by
  rcases place_cases placed with ⟨rfl, fresh⟩ | ⟨front, value, occupant, behind, rfl, rfl, _⟩
  · rw [pairwise_append]
    refine ⟨distinct, pairwise_singleton _ _, ?_⟩
    intro slot member other isItem
    rw [mem_singleton.1 isItem]
    exact fresh slot member
  · have keys : (front ++ (item.1, value) :: behind).map Prod.fst =
        (front ++ (item.1, occupant) :: behind).map Prod.fst := by simp
    have mapped := pairwise_map.2 distinct
    rw [← keys] at mapped
    exact pairwise_map.1 mapped

omit [DecidableEq K] in
theorem held_nil : Held prefers ([] : List (K × V)) [] :=
  ⟨List.Pairwise.nil, by simp, by simp⟩

omit [DecidableEq K] in
theorem Held.slot_unique (held : Held prefers seen slots) {one two : K × V}
    (isOne : one ∈ slots) (isTwo : two ∈ slots) (sameKey : one.1 = two.1) : one = two := by
  have symmetric : Std.Symm fun (left right : K × V) => left.1 ≠ right.1 :=
    ⟨fun _ _ apart => apart.symm⟩
  by_contra different
  exact held.distinct.forall isOne isTwo different sameKey

omit [DecidableEq K] in
theorem Held.of_same {others : List (K × V)} (held : Held prefers seen slots)
    (same : ∀ item, item ∈ seen ↔ item ∈ others) : Held prefers others slots where
  distinct := held.distinct
  within := fun slot member => (same slot).1 (held.within slot member)
  covers := fun item member => held.covers item ((same item).2 member)

theorem held_place (fair : Fair settle prefers)
    (held : Held prefers seen slots) (placed : place settle slots item = some after) :
    Held prefers (seen ++ [item]) after := by
  have distinct := place_distinct held.distinct placed
  rcases place_cases placed with ⟨rfl, fresh⟩ | ⟨front, value, occupant, behind, rfl, rfl, settled⟩
  · refine ⟨distinct, ?_, ?_⟩
    · intro slot member
      rcases mem_append.1 member with old | new
      · exact mem_append_left _ (held.within slot old)
      · exact mem_append_right _ new
    · intro other member
      rcases mem_append.1 member with old | new
      · obtain ⟨slot, inSlots, isKey, preferred⟩ := held.covers other old
        exact ⟨slot, mem_append_left _ inSlots, isKey, preferred⟩
      · rw [mem_singleton.1 new]
        exact ⟨item, mem_append_right _ (mem_singleton_self item), rfl, fair.refl _ _⟩
  · obtain ⟨isOne, overNew, overOld⟩ := fair.stays _ _ _ _ settled
    refine ⟨distinct, ?_, ?_⟩
    · intro slot member
      rcases mem_append.1 member with inFront | inRest
      · exact mem_append_left _ (held.within slot (mem_append_left _ inFront))
      · rcases mem_cons.1 inRest with rfl | inBehind
        · rcases isOne with rfl | rfl
          · exact mem_append_right _ (mem_singleton_self item)
          · exact mem_append_left _ (held.within _ (by simp))
        · exact mem_append_left _ (held.within slot (by simp [inBehind]))
    · intro other member
      have here : (item.1, value) ∈ front ++ (item.1, value) :: behind := by simp
      rcases mem_append.1 member with old | new
      · obtain ⟨slot, inSlots, isKey, preferred⟩ := held.covers other old
        rcases mem_append.1 inSlots with inFront | inRest
        · exact ⟨slot, mem_append_left _ inFront, isKey, preferred⟩
        · rcases mem_cons.1 inRest with rfl | inBehind
          · refine ⟨_, here, isKey, fair.trans _ _ occupant _ ?_ preferred⟩
            rw [← isKey]
            exact overOld
          · exact ⟨slot, by simp [inBehind], isKey, preferred⟩
      · rw [mem_singleton.1 new]
        exact ⟨_, here, rfl, overNew⟩

theorem held_place_all (fair : Fair settle prefers) (items : List (K × V)) :
    ∀ {seen slots after : List (K × V)}, Held prefers seen slots →
      placeAll settle slots items = some after → Held prefers (seen ++ items) after := by
  induction items with
  | nil =>
    intro seen slots after held placed
    cases placed
    rw [append_nil]
    exact held
  | cons item rest ih =>
    intro seen slots after held placed
    obtain ⟨next, first, placed⟩ := bind_eq_some_iff.1 placed
    have held := ih (held_place fair held first) placed
    rw [append_assoc] at held
    exact held

theorem place_some (accepted : ∀ slot ∈ slots, slot.1 = item.1 → (settle item.1 item.2 slot.2).isSome) :
    ∃ after, place settle slots item = some after := by
  induction slots with
  | nil => exact ⟨_, rfl⟩
  | cons slot rest ih =>
    rw [place]
    by_cases same : slot.1 = item.1
    · obtain ⟨value, settled⟩ :=
        isSome_iff_exists.1 (accepted slot mem_cons_self same)
      rw [if_pos same, same, settled]
      exact ⟨_, rfl⟩
    · obtain ⟨after, inRest⟩ := ih fun other member => accepted other (mem_cons_of_mem _ member)
      rw [if_neg same, inRest]
      exact ⟨_, rfl⟩

/-- An item is accepted by every earlier item of its key. -/
def Accepted (settle : K → V → V → Option V) (earlier later : K × V) : Prop :=
  earlier.1 = later.1 → (settle later.1 later.2 earlier.2).isSome

theorem place_all_some (fair : Fair settle prefers) (items : List (K × V)) :
    ∀ {seen slots : List (K × V)}, Held prefers seen slots →
      (seen ++ items).Pairwise (Accepted settle) → ∃ after, placeAll settle slots items = some after := by
  induction items with
  | nil => exact fun _ _ => ⟨_, rfl⟩
  | cons item rest ih =>
    intro seen slots held accepted
    have here := (pairwise_append.1 accepted).2.2
    obtain ⟨next, placed⟩ : ∃ next, place settle slots item = some next := by
      apply place_some
      intro slot member isKey
      exact here slot (held.within slot member) item mem_cons_self isKey
    rw [append_cons] at accepted
    obtain ⟨after, others⟩ := ih (held_place fair held placed) accepted
    refine ⟨after, ?_⟩
    rw [placeAll, foldlM_cons, placed]
    exact others

/-- Items of different keys were each accepted by the occupant they found. -/
theorem accepted_of_place_all (items : List (K × V)) :
    ∀ {slots after : List (K × V)}, (items.Pairwise fun left right => left.1 ≠ right.1) →
      (slots.Pairwise fun left right => left.1 ≠ right.1) → placeAll settle slots items = some after →
      ∀ slot ∈ slots, ∀ item ∈ items, Accepted settle slot item := by
  induction items with
  | nil =>
    intro slots after _ _ _ slot _ item member
    cases member
  | cons first rest ih =>
    intro slots after apart distinct placed slot inSlots item member sameKey
    obtain ⟨next, isNext, placed⟩ := bind_eq_some_iff.1 placed
    obtain ⟨others, restApart⟩ := pairwise_cons.1 apart
    have nextDistinct := place_distinct distinct isNext
    rcases place_cases isNext with ⟨rfl, fresh⟩ | ⟨front, value, occupant, behind, rfl, rfl, settled⟩
    · rcases mem_cons.1 member with rfl | inRest
      · exact absurd sameKey (fresh slot inSlots)
      · exact ih restApart nextDistinct placed slot (mem_append_left _ inSlots) item inRest
          sameKey
    · obtain ⟨_, behindApart, frontApart⟩ := pairwise_append.1 distinct
      obtain ⟨behindFirst, _⟩ := pairwise_cons.1 behindApart
      have elsewhere : slot = (first.1, occupant) ∨
          slot.1 ≠ first.1 ∧ slot ∈ front ++ (first.1, value) :: behind := by
        rcases mem_append.1 inSlots with inFront | inRest
        · exact .inr ⟨frontApart slot inFront (first.1, occupant) mem_cons_self, by simp [inFront]⟩
        · rcases mem_cons.1 inRest with isFirst | inBehind
          · exact .inl isFirst
          · exact .inr ⟨(behindFirst slot inBehind).symm, by simp [inBehind]⟩
      rcases mem_cons.1 member with rfl | inRest
      · rcases elsewhere with rfl | ⟨different, _⟩
        · rw [settled]
          rfl
        · exact absurd sameKey different
      · rcases elsewhere with rfl | ⟨_, inNext⟩
        · exact absurd sameKey (others item inRest)
        · exact ih restApart nextDistinct placed slot inNext item inRest sameKey

/-- The items fall into two parts, neither of which accepts an item of the other. Whatever the
order, an item of one part meets one of the other. -/
def Torn {α : Type} (accepts : α → α → Prop) (items : List α) : Prop :=
  ∃ left right, items.Perm (left ++ right) ∧ left ≠ [] ∧ right ≠ [] ∧
    ∀ one ∈ left, ∀ two ∈ right, ¬ accepts one two ∧ ¬ accepts two one

theorem Torn.of_perm {α : Type} {accepts : α → α → Prop} {items others : List α}
    (torn : Torn accepts items) (same : items.Perm others) : Torn accepts others := by
  obtain ⟨left, right, split, rest⟩ := torn
  exact ⟨left, right, same.symm.trans split, rest⟩

/-- One more item tears nothing that was whole, where an earlier item accepts it. -/
theorem whole_concat {α : Type} {accepts : α → α → Prop} {items : List α} {item : α}
    (whole : ¬ Torn accepts items)
    (accepted : items ≠ [] → ∃ earlier ∈ items, accepts earlier item) :
    ¬ Torn accepts (items ++ [item]) := by
  have lone : ∀ front back right : List α, (items ++ [item]).Perm (front ++ item :: back ++ right) →
      right ≠ [] → (∀ one ∈ front ++ item :: back, ∀ two ∈ right, ¬ accepts one two ∧ ¬ accepts two one) →
      False := by
    intro front back right split nonempty apart
    have others : items.Perm (front ++ back ++ right) := by
      apply (perm_cons item).1
      apply (perm_append_singleton item items).symm.trans (split.trans _)
      rw [append_assoc, cons_append, append_assoc]
      exact perm_middle
    by_cases alone : front ++ back = []
    · -- The item is a part of its own, and what accepts it is in the other part.
      rw [alone, nil_append] at others
      obtain ⟨earlier, member, accepts⟩ := accepted fun empty => nonempty (by simpa [empty] using others)
      exact (apart item (by simp) earlier (others.mem_iff.1 member)).2 accepts
    · refine whole ⟨front ++ back, right, others, alone, nonempty, ?_⟩
      intro one isOne two isTwo
      apply apart one _ two isTwo
      rcases mem_append.1 isOne with inFront | inBack
      · simp [inFront]
      · simp [inBack]
  rintro ⟨left, right, split, leftNonempty, rightNonempty, apart⟩
  rcases mem_append.1 (split.mem_iff.1 (mem_append_right items (mem_singleton_self item))) with
    inLeft | inRight
  · obtain ⟨front, back, rfl⟩ := append_of_mem inLeft
    exact lone front back right split rightNonempty apart
  · obtain ⟨front, back, rfl⟩ := append_of_mem inRight
    exact lone front back left (split.trans perm_append_comm) leftNonempty
      fun one isOne two isTwo => (apart two isTwo one isOne).symm

/-- The items of a key that no other one is preferred to were compared with one another. -/
theorem place_all_whole (fair : Fair settle prefers) {key : K} {picks : K × V → Bool}
    (keyed : ∀ item, picks item = true → item.1 = key)
    (upward : ∀ one two, picks two = true → one.1 = key → prefers key one.2 two.2 → picks one = true)
    {items : List (K × V)} : ∀ {slots : List (K × V)}, placeAll settle [] items = some slots →
      ¬ Torn (Accepted settle) (items.filter picks) := by
  induction items using List.reverseRecOn with
  | nil =>
    rintro _ _ ⟨left, right, split, nonempty, _⟩
    exact nonempty (append_eq_nil_iff.1 (nil_perm.1 split)).1
  | append_singleton items item ih =>
    intro after placed
    rw [placeAll, foldlM_append] at placed
    obtain ⟨slots, earlier, placed⟩ := bind_eq_some_iff.1 placed
    rw [filter_append]
    cases picked : picks item with
    | false =>
      rw [filter_singleton, picked, cond_false, append_nil]
      exact ih earlier
    | true =>
      rw [filter_singleton, picked, cond_true]
      apply whole_concat (ih earlier)
      intro nonempty
      obtain ⟨first, isFirst⟩ := exists_mem_of_ne_nil _ nonempty
      obtain ⟨inItems, isPicked⟩ := mem_filter.1 isFirst
      have held := held_place_all fair items held_nil earlier
      obtain ⟨slot, inSlots, isKey, preferred⟩ := held.covers first inItems
      have slotKey : slot.1 = key := isKey.trans (keyed first isPicked)
      rw [keyed first isPicked] at preferred
      refine ⟨slot, mem_filter.2 ⟨held.within slot inSlots, upward slot first isPicked slotKey preferred⟩, ?_⟩
      exact accepted_of_place_all [item] (pairwise_singleton _ _) held.distinct placed slot inSlots item
        (mem_singleton_self item)

omit [DecidableEq K] in
theorem Held.best (held : Held prefers seen slots) {slot : K × V}
    (member : slot ∈ slots) {value : V} (isItem : (slot.1, value) ∈ seen) :
    prefers slot.1 slot.2 value := by
  obtain ⟨other, inSlots, isKey, preferred⟩ := held.covers _ isItem
  have same := held.slot_unique inSlots member isKey
  rw [same] at preferred
  exact preferred

omit [DecidableEq K] in
/-- Two runs over the same items, where two items of a key that are preferred to all others of
the key are the same. -/
theorem held_unique {others left right : List (K × V)} (leftHeld : Held prefers seen left)
    (rightHeld : Held prefers others right) (same : ∀ item, item ∈ seen ↔ item ∈ others)
    (single : ∀ key first second, (key, first) ∈ seen → (key, second) ∈ seen →
      (∀ value, (key, value) ∈ seen → prefers key first value ∧ prefers key second value) →
      first = second) : left.Perm right := by
  have equal : ∀ key first second, (key, first) ∈ left → (key, second) ∈ right → first = second := by
    intro key first second inLeft inRight
    apply single key first second (leftHeld.within _ inLeft) ((same _).2 (rightHeld.within _ inRight))
    intro value isItem
    exact ⟨leftHeld.best inLeft isItem, rightHeld.best inRight ((same _).1 isItem)⟩
  have nodup : ∀ {slots : List (K × V)}, (slots.Pairwise fun one two => one.1 ≠ two.1) →
      slots.Nodup := fun distinct => distinct.imp fun apart equal => apart (congrArg Prod.fst equal)
  rw [perm_ext_iff_of_nodup (nodup leftHeld.distinct) (nodup rightHeld.distinct)]
  rintro ⟨key, value⟩
  constructor
  · intro member
    obtain ⟨⟨_, other⟩, inRight, rfl, _⟩ := rightHeld.covers _ ((same _).1 (leftHeld.within _ member))
    rw [equal _ _ _ member inRight]
    exact inRight
  · intro member
    obtain ⟨⟨_, other⟩, inLeft, rfl, _⟩ := leftHeld.covers _ ((same _).2 (rightHeld.within _ member))
    rw [← equal _ _ _ inLeft member]
    exact inLeft

end Rustfs.Library.Slots
