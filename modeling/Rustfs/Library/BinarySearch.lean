import Mathlib.Data.List.Basic

/-!
# Searching by halving

The search of a sorted slice for the place of an item that is not in it: the comparison only says
whether an entry is past that place. If the entries past it are those behind it, the place is
found.
-/

namespace Rustfs.Library.BinarySearch

open List

variable {α : Type} (past : α → Bool) (items : List α)

/-- `size` entries from `base` on are left. -/
def narrow : (fuel base size : Nat) → Nat
  | 0, base, _ => base
  | fuel + 1, base, size =>
    if size ≤ 1 then base
    else narrow fuel (if (items[base + size / 2]?).any past then base else base + size / 2)
      (size - size / 2)

def insertionPoint : Nat :=
  match items with
  | [] => 0
  | _ =>
    let base := narrow past items items.length 0 items.length
    if (items[base]?).any past then base else base + 1

variable {past} {front back : List α}

theorem past_at (before : ∀ item ∈ front, past item = false) (after : ∀ item ∈ back, past item = true)
    {place : Nat} (inside : place < (front ++ back).length) :
    ((front ++ back)[place]?).any past = true ↔ front.length ≤ place := by
  rw [getElem?_append]
  split
  · rename_i early
    simp [before _ (getElem_mem early), early]
  · rename_i late
    have behind : place - front.length < back.length := by
      rw [length_append] at inside
      omega
    rw [getElem?_eq_getElem behind]
    simp [after _ (getElem_mem behind), Nat.le_of_not_lt late]

theorem narrow_holds (before : ∀ item ∈ front, past item = false)
    (after : ∀ item ∈ back, past item = true) {fuel base size : Nat} (enough : size ≤ fuel)
    (positive : 0 < size) (inside : base + size ≤ (front ++ back).length)
    (low : base = 0 ∨ base < front.length) (high : front.length ≤ base + size) :
    narrow past (front ++ back) fuel base size < (front ++ back).length ∧
      (narrow past (front ++ back) fuel base size = 0 ∨
        narrow past (front ++ back) fuel base size < front.length) ∧
      front.length ≤ narrow past (front ++ back) fuel base size + 1 := by
  induction fuel generalizing base size with
  | zero => omega
  | succ fuel ih =>
    rw [narrow]
    split
    · omega
    · have middle : base + size / 2 < (front ++ back).length := by omega
      have there := past_at before after middle
      split
      · rename_i isPast
        have := there.1 isPast
        exact ih (by omega) (by omega) (by omega) low (by omega)
      · rename_i notPast
        have := mt there.2 notPast
        exact ih (by omega) (by omega) (by omega) (by omega) (by omega)

theorem insertion_point_append (before : ∀ item ∈ front, past item = false)
    (after : ∀ item ∈ back, past item = true) :
    insertionPoint past (front ++ back) = front.length := by
  unfold insertionPoint
  split
  · rename_i empty
    rw [(append_eq_nil_iff.1 empty).1, length_nil]
  · rename_i nonempty
    have positive : 0 < (front ++ back).length := length_pos_iff.2 nonempty
    obtain ⟨inside, low, high⟩ := narrow_holds before after (Nat.le_refl _) positive
      (Nat.le_of_eq (Nat.zero_add _)) (.inl rfl) (by rw [length_append]; omega)
    have there := past_at before after inside
    dsimp only
    split
    · rename_i isPast
      have := there.1 isPast
      omega
    · rename_i notPast
      have := mt there.2 notPast
      omega

end Rustfs.Library.BinarySearch
