import Mathlib.Data.List.Basic
import Mathlib.Data.List.Count
import Mathlib.Data.List.Dedup
import Mathlib.Data.List.Perm.Subperm
import Mathlib.Data.List.Sort

/-!
# Quorums over a list of replicas

Counting lemmas for arguments in which a predicate holds on at least a quorum of
the members of a list, and the intersection of two majorities.
-/

namespace Rustfs.Library.Quorum

open List

variable {α β : Type} {relation : α → β → Prop} {before : List α} {after : List β}

/-- Two predicates holding on at least `quorum` members each share a member once
two quorums no longer fit side by side. -/
theorem exists_mem_of_two_quorums (members : List α) (left right : α → Bool) (quorum : Nat)
    (majority : members.length < 2 * quorum)
    (leftQuorum : quorum ≤ members.countP left) (rightQuorum : quorum ≤ members.countP right) :
    ∃ member ∈ members, left member = true ∧ right member = true := by
  by_contra disjoint
  push Not at disjoint
  have split : ∀ rest : List α, (∀ member ∈ rest, left member = true → right member ≠ true) →
      rest.countP left + rest.countP right ≤ rest.length := by
    intro rest apart
    induction rest with
    | nil => simp
    | cons head tail ih =>
      have tailBound := ih fun member inTail => apart member (mem_cons_of_mem _ inTail)
      have headApart := apart head mem_cons_self
      have headCost : (if left head = true then 1 else 0) +
          (if right head = true then 1 else 0) ≤ 1 := by
        by_cases onLeft : left head = true
        · simp [onLeft, headApart onLeft]
        · by_cases onRight : right head = true <;> simp [onLeft, onRight]
      rw [countP_cons, countP_cons, length_cons]
      omega
  have bound := split members disjoint
  omega

theorem exists_common_member {members left right : List α} (leftDistinct : left.Nodup)
    (rightDistinct : right.Nodup) (leftMembers : left ⊆ members) (rightMembers : right ⊆ members)
    (overlap : members.length < left.length + right.length) : ∃ member ∈ left, member ∈ right := by
  by_contra none
  push Not at none
  have together : (left ++ right).Nodup := by
    rw [nodup_append]
    refine ⟨leftDistinct, rightDistinct, ?_⟩
    intro member inLeft other inRight same
    exact none member inLeft (same ▸ inRight)
  have fits := (together.subperm (append_subset.2 ⟨leftMembers, rightMembers⟩)).length_le
  rw [length_append] at fits
  omega

theorem length_le_count_of_places {members : List α} {holds : α → Bool} {places : List Nat}
    (distinct : places.Nodup)
    (each : ∀ place ∈ places, ∃ member, members[place]? = some member ∧ holds member = true) :
    places.length ≤ members.countP holds := by
  have found : places ⊆ members.findIdxs holds := by
    intro place isPlace
    obtain ⟨member, isMember, holdsThere⟩ := each place isPlace
    obtain ⟨bound, rfl⟩ := List.getElem?_eq_some_iff.1 isMember
    exact (mem_findIdxs_iff_exists_getElem_pos).2 ⟨bound, holdsThere⟩
  rw [← length_findIdxs]
  exact (distinct.subperm found).length_le

/-- In increasing order, the element with `quorum` elements from it on bounds that many
from below. -/
theorem quorum_le_count_of_order_statistic {β : Type} [LinearOrder β] (values : List β)
    (quorum : Nat) (value : β) (few : quorum ≤ values.length)
    (found : (values.insertionSort (· ≤ ·))[values.length - quorum]? = some value) :
    quorum ≤ values.countP fun other => decide (value ≤ other) := by
  set sorted := values.insertionSort (· ≤ ·) with isSorted
  have same : sorted.Perm values := perm_insertionSort _ _
  have ordered : sorted.Pairwise (· ≤ ·) := pairwise_insertionSort _ _
  obtain ⟨bound, isValue⟩ := List.getElem?_eq_some_iff.1 found
  have fromValue : ∀ other ∈ sorted.drop (values.length - quorum), value ≤ other := by
    intro other member
    obtain ⟨offset, inside, rfl⟩ := mem_iff_getElem.1 member
    rw [getElem_drop, ← isValue]
    rcases Nat.eq_zero_or_pos offset with rfl | later
    · exact le_of_eq (by congr 1)
    · exact pairwise_iff_getElem.1 ordered _ _ _ _ (by omega)
  calc quorum = (sorted.drop (values.length - quorum)).length := by
        rw [length_drop, same.length_eq]
        omega
    _ = (sorted.drop (values.length - quorum)).countP fun other => decide (value ≤ other) :=
        (countP_eq_length.2 fun other member => decide_eq_true (fromValue other member)).symm
    _ ≤ sorted.countP fun other => decide (value ≤ other) :=
        (drop_sublist _ _).countP_le
    _ = values.countP fun other => decide (value ≤ other) := same.countP_eq _

/-- Moving along a pointwise relation that carries one predicate into another
never loses a member that satisfies it. -/
theorem count_le_of_forall₂ {left : α → Bool} {right : β → Bool}
    (related : List.Forall₂ relation before after)
    (carried : ∀ a b, relation a b → left a = true → right b = true) :
    before.countP left ≤ after.countP right := by
  induction related with
  | nil => simp
  | cons headRelated _ ih =>
    rw [countP_cons, countP_cons]
    have head := carried _ _ headRelated
    split
    · rename_i onLeft
      simp only [head onLeft, if_true]
      omega
    · omega

theorem forall₂_set {left : List α} {right : List β}
    (related : List.Forall₂ relation left right) {index : Nat} {a : α} {b : β}
    (found : right[index]? = some b) (holds : relation a b) :
    List.Forall₂ relation (left.set index a) right := by
  induction related generalizing index with
  | nil => exact .nil
  | cons head tail ih =>
    cases index with
    | zero =>
      cases found
      exact .cons holds tail
    | succ index => exact .cons head (ih found)

end Rustfs.Library.Quorum
