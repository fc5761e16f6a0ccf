import Mathlib.Data.List.Sort
import Mathlib.Data.List.Nodup
import Mathlib.Data.List.Perm.Subperm
import Mathlib.Order.Basic
import Mathlib.Algebra.Order.BigOperators.Group.List
import Mathlib.Algebra.Order.Group.Nat
import Mathlib.Algebra.Ring.Nat

/-!
# Finite maps in key order

A map is its list of entries in increasing key order, so two maps are equal as
maps exactly when they are equal. The order in which a program walks such a map
is a separate matter (`Walk`): any rearrangement of the entries.
-/

namespace Rustfs.Library

open List

structure KeyMap (K V : Type) [LinearOrder K] where
  entries : List (K × V)
  sorted : entries.Pairwise fun left right => left.1 < right.1
  deriving DecidableEq

namespace KeyMap

variable {K V W : Type} [LinearOrder K] {entries : List (K × V)} {entry : K × V} {value : V}
  {key : K} {self : KeyMap K V} {inRange : K × V → Bool}

def empty : KeyMap K V := ⟨[], List.Pairwise.nil⟩

def isEmpty (self : KeyMap K V) : Bool := self.entries.isEmpty

def get (self : KeyMap K V) (key : K) : Option V :=
  (self.entries.find? fun entry => entry.1 = key).map Prod.snd

def insertEntry (key : K) (value : V) : List (K × V) → List (K × V)
  | [] => [(key, value)]
  | entry :: rest =>
    if key < entry.1 then (key, value) :: entry :: rest
    else if key = entry.1 then (key, value) :: rest
    else entry :: insertEntry key value rest

theorem mem_insert_entry (sorted : entries.Pairwise fun left right => left.1 < right.1) :
    entry ∈ insertEntry key value entries ↔
      entry = (key, value) ∨ (entry.1 ≠ key ∧ entry ∈ entries) := by
  induction entries with
  | nil => simp [insertEntry]
  | cons first rest ih =>
    obtain ⟨above, restSorted⟩ := pairwise_cons.1 sorted
    rw [insertEntry]
    split
    case isTrue less =>
      grind
    split
    case isTrue _ same =>
      grind
    case isFalse notLess different =>
      grind

theorem insert_entry_sorted (key : K) (value : V)
    (sorted : entries.Pairwise fun left right => left.1 < right.1) :
    (insertEntry key value entries).Pairwise fun left right => left.1 < right.1 := by
  induction entries with
  | nil => simp [insertEntry]
  | cons first rest ih =>
    obtain ⟨above, restSorted⟩ := pairwise_cons.1 sorted
    rw [insertEntry]
    split
    case isTrue less =>
      refine pairwise_cons.2 ⟨?_, sorted⟩
      intro other member
      rcases mem_cons.1 member with rfl | inRest
      · exact less
      · exact less.trans (above other inRest)
    split
    case isTrue _ same =>
      exact pairwise_cons.2 ⟨fun other member => same ▸ above other member, restSorted⟩
    case isFalse notLess different =>
      refine pairwise_cons.2 ⟨?_, ih restSorted⟩
      intro other member
      rcases (mem_insert_entry restSorted).1 member with rfl | ⟨_, inRest⟩
      · exact lt_of_le_of_ne (not_lt.1 notLess) (Ne.symm different)
      · exact above other inRest

def insert (self : KeyMap K V) (key : K) (value : V) : KeyMap K V where
  entries := insertEntry key value self.entries
  sorted := insert_entry_sorted key value self.sorted

def filter (self : KeyMap K V) (keep : K × V → Bool) : KeyMap K V where
  entries := self.entries.filter keep
  sorted := self.sorted.filter _

def remove (self : KeyMap K V) (key : K) : KeyMap K V :=
  self.filter fun entry => entry.1 ≠ key

/-- Without the entry of the greatest key. -/
def popLast (self : KeyMap K V) : KeyMap K V where
  entries := self.entries.dropLast
  sorted := self.sorted.sublist (List.dropLast_sublist _)

/-- A later entry replaces an earlier one of the same key. -/
def ofEntries (entries : List (K × V)) : KeyMap K V :=
  entries.foldl (fun map entry => map.insert entry.1 entry.2) empty

theorem mem_insert :
    entry ∈ (self.insert key value).entries ↔
      entry = (key, value) ∨ (entry.1 ≠ key ∧ entry ∈ self.entries) :=
  mem_insert_entry self.sorted

theorem keys_nodup (self : KeyMap K V) : (self.entries.map Prod.fst).Nodup :=
  pairwise_map.2 (self.sorted.imp fun less => less.ne)

theorem entries_nodup (self : KeyMap K V) : self.entries.Nodup :=
  (List.Nodup.of_map Prod.fst) self.keys_nodup

theorem ext_mem {left right : KeyMap K V}
    (same : ∀ entry, entry ∈ left.entries ↔ entry ∈ right.entries) : left = right := by
  have permuted : left.entries.Perm right.entries :=
    (perm_ext_iff_of_nodup left.entries_nodup right.entries_nodup).2 same
  have equal : left.entries = right.entries := by
    apply permuted.eq_of_pairwise _ left.sorted right.sorted
    intro first second _ _ less greater
    exact absurd (less.trans greater) (lt_irrefl _)
  cases right
  cases equal
  rfl

theorem mem_foldl_insert (distinct : (entries.map Prod.fst).Nodup)
    (start : KeyMap K V) (fresh : ∀ entry ∈ start.entries, entry.1 ∉ entries.map Prod.fst) :
    entry ∈ (entries.foldl (fun map entry => map.insert entry.1 entry.2) start).entries ↔
      entry ∈ start.entries ∨ entry ∈ entries := by
  induction entries generalizing start with
  | nil => simp
  | cons first rest ih =>
    rw [map_cons, nodup_cons] at distinct
    rw [foldl_cons, ih distinct.2]
    · rw [mem_insert]
      constructor
      · rintro ((rfl | ⟨_, inStart⟩) | inRest)
        · exact .inr mem_cons_self
        · exact .inl inStart
        · exact .inr (mem_cons_of_mem _ inRest)
      · rintro (inStart | member)
        · refine .inl (.inr ⟨?_, inStart⟩)
          intro same
          exact fresh entry inStart (by simp [same])
        · rcases mem_cons.1 member with rfl | inRest
          · exact .inl (.inl rfl)
          · exact .inr inRest
    · intro other member
      rcases mem_insert.1 member with rfl | ⟨_, inStart⟩
      · exact distinct.1
      · exact fun inKeys => fresh other inStart (mem_cons_of_mem _ inKeys)

theorem of_entries_perm (permuted : entries.Perm self.entries) : ofEntries entries = self := by
  apply ext_mem
  intro entry
  rw [ofEntries, mem_foldl_insert ((permuted.map Prod.fst).nodup_iff.2 self.keys_nodup) empty
    (by simp [empty])]
  simp [empty, permuted.mem_iff]

theorem mem_of_entries (member : entry ∈ (ofEntries entries).entries) : entry ∈ entries := by
  have run : ∀ (entries : List (K × V)) (start : KeyMap K V),
      entry ∈ (entries.foldl (fun map entry => map.insert entry.1 entry.2) start).entries →
        entry ∈ start.entries ∨ entry ∈ entries := by
    intro entries
    induction entries with
    | nil => exact fun start member => .inl member
    | cons first rest ih =>
      intro start member
      rcases ih _ member with inserted | inRest
      · rcases mem_insert.1 inserted with rfl | ⟨_, inStart⟩
        · exact .inr mem_cons_self
        · exact .inl inStart
      · exact .inr (mem_cons_of_mem _ inRest)
  rcases run entries empty member with inEmpty | inEntries
  · simp [empty] at inEmpty
  · exact inEntries

theorem of_entries_length_le (entries : List (K × V)) :
    (ofEntries entries).entries.length ≤ entries.length := by
  have subset : (ofEntries entries).entries ⊆ entries := fun _ member => mem_of_entries member
  exact (subperm_of_subset (ofEntries entries).entries_nodup subset).length_le

theorem get_eq_some : self.get key = some value ↔ (key, value) ∈ self.entries := by
  constructor
  · intro found
    obtain ⟨entry, located, rfl⟩ := Option.map_eq_some_iff.1 found
    have same : entry.1 = key := by simpa using find?_some located
    have member := mem_of_find?_eq_some located
    rw [← same]
    exact member
  · intro member
    rw [get]
    cases located : self.entries.find? fun entry => entry.1 = key with
    | none => simpa using find?_eq_none.1 located _ member
    | some entry =>
      have same : entry.1 = key := by simpa using find?_some located
      have unique := inj_on_of_nodup_map self.keys_nodup
        (mem_of_find?_eq_some located) member same
      simp [unique]

theorem get_insert (self : KeyMap K V) (key : K) (value : V) (wanted : K) :
    (self.insert key value).get wanted = if wanted = key then some value else self.get wanted := by
  apply Option.ext
  intro found
  rw [get_eq_some, mem_insert]
  by_cases same : wanted = key
  · rw [if_pos same]
    simp only [Prod.mk.injEq, same, true_and, ne_eq, not_true_eq_false, false_and, or_false,
      Option.some.injEq]
    exact eq_comm
  · rw [if_neg same, get_eq_some]
    simp [same]

theorem get_remove (self : KeyMap K V) (key wanted : K) :
    (self.remove key).get wanted = if wanted = key then none else self.get wanted := by
  apply Option.ext
  intro found
  rw [get_eq_some, remove, filter, mem_filter]
  by_cases same : wanted = key
  · simp [same]
  · simp [same, get_eq_some]

theorem ext_get {left right : KeyMap K V} (agree : ∀ key, left.get key = right.get key) :
    left = right := by
  apply ext_mem
  intro entry
  rw [← get_eq_some, agree, get_eq_some]

theorem get_insert_fresh {key wanted : K} {value found : V} (fresh : self.get key = none) :
    (self.insert key value).get wanted = some found ↔
      (wanted = key ∧ found = value) ∨ self.get wanted = some found := by
  rw [get_insert]
  split
  · rename_i same
    rw [same, fresh]
    simp [eq_comm]
  · rename_i different
    simp [different]

theorem insert_present (found : self.get key = some value) : self.insert key value = self := by
  apply ext_get
  intro wanted
  rw [get_insert]
  split
  · rename_i same
    rw [same, found]
  · rfl

theorem take_while_eq_filter {start : K}
    (sorted : entries.Pairwise fun left right => left.1 < right.1)
    (reached : ∀ entry ∈ entries, start ≤ entry.1)
    (convex : ∀ entry later : K × V, start ≤ entry.1 → entry.1 ≤ later.1 → inRange later = true →
      inRange entry = true) : entries.takeWhile inRange = entries.filter inRange := by
  induction entries with
  | nil => rfl
  | cons first rest ih =>
    obtain ⟨above, restSorted⟩ := pairwise_cons.1 sorted
    have same := ih restSorted fun entry member => reached entry (mem_cons_of_mem _ member)
    cases inside : inRange first with
    | true => rw [takeWhile_cons_of_pos inside, filter_cons_of_pos inside, same]
    | false =>
      have outside : rest.filter inRange = [] := by
        rw [filter_eq_nil_iff]
        intro later member isInside
        have impossible := convex first later (reached first mem_cons_self)
          (above later member).le isInside
        rw [inside] at impossible
        cases impossible
      rw [takeWhile_cons_of_neg (by simp [inside]), filter_cons_of_neg (by simp [inside]),
        outside]

theorem range_eq_filter {start : K} (sorted : entries.Pairwise fun left right => left.1 < right.1)
    (above : ∀ entry : K × V, inRange entry = true → start ≤ entry.1)
    (convex : ∀ entry later : K × V, start ≤ entry.1 → entry.1 ≤ later.1 → inRange later = true →
      inRange entry = true) :
    (entries.dropWhile fun entry => entry.1 < start).takeWhile inRange = entries.filter inRange := by
  induction entries with
  | nil => rfl
  | cons first rest ih =>
    obtain ⟨greater, restSorted⟩ := pairwise_cons.1 sorted
    by_cases before : first.1 < start
    · have outside : ¬inRange first = true := fun inside => not_lt.2 (above first inside) before
      rw [dropWhile_cons_of_pos (by simpa using before), filter_cons_of_neg outside]
      exact ih restSorted
    · rw [dropWhile_cons_of_neg (by simpa using before)]
      apply take_while_eq_filter sorted _ convex
      intro entry member
      rcases mem_cons.1 member with rfl | later
      · exact not_lt.1 before
      · exact (not_lt.1 before).trans (greater entry later).le

/-- At most so many entries, with keys and values of these kinds. -/
structure Within (keys : K → Prop) (values : V → Prop) (count : Nat) (map : KeyMap K V) : Prop where
  few : map.entries.length ≤ count
  each : ∀ entry ∈ map.entries, keys entry.1 ∧ values entry.2

section Bounded

variable {keys : K → Prop} {values : V → Prop} {count : Nat} {map : KeyMap K V} {key : K} {value : V}

theorem insert_entry_length_le (key : K) (value : V) (entries : List (K × V)) :
    (insertEntry key value entries).length ≤ entries.length + 1 := by
  induction entries with
  | nil => exact Nat.le_refl _
  | cons first rest ih =>
    rw [insertEntry]
    split
    · exact Nat.le_refl _
    split
    · exact Nat.le_succ _
    · exact Nat.succ_le_succ ih

theorem within_empty : Within keys values 0 (empty : KeyMap K V) :=
  ⟨Nat.le_refl _, fun _ member => absurd member not_mem_nil⟩

section

variable (within : Within keys values count map)

include within

theorem Within.mono {more : Nat} (le : count ≤ more) : Within keys values more map :=
  ⟨Nat.le_trans within.few le, within.each⟩

theorem Within.insert (isKey : keys key)
    (isValue : values value) : Within keys values (count + 1) (map.insert key value) where
  few := Nat.le_trans (insert_entry_length_le key value map.entries) (Nat.succ_le_succ within.few)
  each := by
    intro entry member
    rcases mem_insert.1 member with rfl | ⟨_, old⟩
    · exact ⟨isKey, isValue⟩
    · exact within.each entry old

theorem Within.filter (keep : K × V → Bool) : Within keys values count (map.filter keep) where
  few := Nat.le_trans (length_filter_le _ _) within.few
  each := fun entry member => within.each entry (mem_of_mem_filter member)

theorem Within.remove (key : K) : Within keys values count (map.remove key) :=
  within.filter _

theorem Within.get_value (found : map.get key = some value) : values value :=
  (within.each _ (get_eq_some.1 found)).2

end

theorem Within.foldl {Item : Type} {items : List Item} {step : KeyMap K V → Item → KeyMap K V}
    {added : Nat} (steps : ∀ item ∈ items, ∀ start bound, Within keys values bound start →
      Within keys values (bound + added) (step start item))
    (within : Within keys values count map) :
    Within keys values (count + added * items.length) (items.foldl step map) := by
  induction items generalizing map count with
  | nil => exact within
  | cons item items ih =>
    have next := ih (fun other member => steps other (mem_cons_of_mem _ member))
      (steps item mem_cons_self map count within)
    apply next.mono
    rw [length_cons, Nat.mul_succ]
    omega

end Bounded

end KeyMap

/-- One order in which the entries of a map are walked. -/
structure Walk where
  enumerate : ∀ {K V : Type}, List (K × V) → List (K × V)
  perm : ∀ {K V : Type} (entries : List (K × V)), (enumerate entries).Perm entries

def Walk.sorted : Walk where
  enumerate entries := entries
  perm _ := .refl _

@[simp] theorem Walk.length_enumerate (walk : Walk) {K V : Type} (entries : List (K × V)) :
    (walk.enumerate entries).length = entries.length :=
  (walk.perm entries).length_eq

theorem Walk.mem_enumerate (walk : Walk) {K V : Type} {entries : List (K × V)} {entry : K × V} :
    entry ∈ walk.enumerate entries ↔ entry ∈ entries :=
  (walk.perm entries).mem_iff

end Rustfs.Library

namespace Rustfs.Library.KeyMap

variable {K V : Type} [LinearOrder K] {self : KeyMap K V} {key : K} {value : V}
  {weight other : K → V → Nat}

def total (self : KeyMap K V) (weight : K → V → Nat) : Nat :=
  (self.entries.map fun entry => weight entry.1 entry.2).sum

theorem entry_not_removed : (key, value) ∉ (self.remove key).entries := by
  intro member
  have found := get_eq_some.2 member
  rw [get_remove, if_pos rfl] at found
  cases found

theorem mem_remove {entry : K × V} :
    entry ∈ (self.remove key).entries ↔ entry.1 ≠ key ∧ entry ∈ self.entries := by
  unfold remove filter
  rw [List.mem_filter, decide_eq_true_eq, and_comm]

theorem entries_perm (found : self.get key = some value) :
    self.entries.Perm ((key, value) :: (self.remove key).entries) := by
  apply (List.perm_ext_iff_of_nodup self.entries_nodup
    (List.nodup_cons.2 ⟨entry_not_removed, entries_nodup _⟩)).2
  intro entry
  rw [List.mem_cons, mem_remove]
  constructor
  · intro member
    by_cases same : entry.1 = key
    · left
      have also := get_eq_some.2 (show (entry.1, entry.2) ∈ self.entries from member)
      rw [same, found] at also
      cases same
      cases also
      rfl
    · exact .inr ⟨same, member⟩
  · rintro (rfl | ⟨_, member⟩)
    · exact get_eq_some.1 found
    · exact member

theorem total_of_found (found : self.get key = some value) :
    self.total weight = weight key value + (self.remove key).total weight := by
  unfold total
  rw [((entries_perm found).map _).sum_eq]
  rfl

theorem remove_insert : (self.insert key value).remove key = self.remove key := by
  apply ext_get
  intro wanted
  rw [get_remove, get_remove, get_insert]
  split
  all_goals rfl

theorem remove_absent (absent : self.get key = none) : self.remove key = self := by
  apply ext_get
  intro wanted
  rw [get_remove]
  split
  · rename_i same
    rw [same, absent]
  · rfl

theorem total_insert :
    (self.insert key value).total weight = weight key value + (self.remove key).total weight := by
  have found : (self.insert key value).get key = some value := by
    rw [get_insert, if_pos rfl]
  rw [total_of_found found, remove_insert]

theorem total_remove_le : (self.remove key).total weight ≤ self.total weight := by
  cases found : self.get key with
  | none => rw [remove_absent found]
  | some value =>
    rw [total_of_found found]
    exact Nat.le_add_left _ _

theorem total_mono
    (le : ∀ key value, self.get key = some value → weight key value ≤ other key value) :
    self.total weight ≤ self.total other := by
  apply List.sum_le_sum
  rintro ⟨key, value⟩ member
  exact le key value (get_eq_some.2 member)

theorem total_congr
    (same : ∀ key value, self.get key = some value → weight key value = other key value) :
    self.total weight = self.total other :=
  le_antisymm (total_mono fun key value found => (same key value found).le)
    (total_mono fun key value found => (same key value found).ge)

def mapValues {W : Type} (self : KeyMap K V) (f : V → W) : KeyMap K W where
  entries := self.entries.map fun entry => (entry.1, f entry.2)
  sorted := List.pairwise_map.2 self.sorted

theorem get_map_values {W : Type} (self : KeyMap K V) (f : V → W) (wanted : K) :
    (self.mapValues f).get wanted = (self.get wanted).map f := by
  apply Option.ext
  intro found
  rw [get_eq_some, Option.map_eq_some_iff]
  constructor
  · intro member
    obtain ⟨⟨key, value⟩, inside, same⟩ := List.mem_map.1 member
    cases same
    exact ⟨value, get_eq_some.2 inside, rfl⟩
  · rintro ⟨value, located, rfl⟩
    exact List.mem_map.2 ⟨(wanted, value), get_eq_some.1 located, rfl⟩

end Rustfs.Library.KeyMap
