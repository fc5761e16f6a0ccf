import Mathlib.Data.List.Count
import Mathlib.Data.List.Induction
import Mathlib.Data.List.Nodup
import Mathlib.Data.List.Rotate
import Rustfs.Library.KeyMap

/-!
# Counting votes in a hash map

A loop that counts equal items in a hash map and then takes a most frequent one
while walking the map in an order nobody fixes. `tally` is the counting loop,
`lastMax` and `firstMax` are the two ways of keeping the best entry. What either
returns is a top-voted key of the items, whatever the walk; the walk decides only
between tied keys.
-/

namespace Rustfs.Library.Tally

open List

variable {α κ : Type} {entry : α × Nat} {entries : List (α × Nat)} {last : α × Nat}

/-- `*map.entry(item).or_insert(0) += 1`: the entry keeps the first of its items. -/
def bump (same : α → α → Bool) (item : α) : List (α × Nat) → List (α × Nat)
  | [] => [(item, 1)]
  | (held, count) :: rest =>
    if same held item then (held, count + 1) :: rest
    else (held, count) :: bump same item rest

def tally (same : α → α → Bool) (items : List α) : List (α × Nat) :=
  items.foldl (fun counts item => bump same item counts) []

/-- `max_by` on the counts: of several best entries the last one. -/
def lastMax (entries : List (α × Nat)) : Option (α × Nat) :=
  entries.foldl (fun best entry => if best.elim 0 Prod.snd ≤ entry.2 then some entry else best) none

/-- A loop with a strict comparison: of several best entries the first one. -/
def firstMax (entries : List (α × Nat)) : Option (α × Nat) :=
  entries.foldl (fun best entry => if best.elim 0 Prod.snd < entry.2 then some entry else best) none

/-- No entry has a greater count. -/
def Leads (entries : List (α × Nat)) (entry : α × Nat) : Prop :=
  entry ∈ entries ∧ ∀ other ∈ entries, other.2 ≤ entry.2

theorem leads_perm {left right : List (α × Nat)} (rearranged : left.Perm right) :
    Leads left entry ↔ Leads right entry := by
  unfold Leads
  rw [rearranged.mem_iff]
  constructor
  · intro leads
    exact ⟨leads.1, fun other member => leads.2 other (rearranged.mem_iff.2 member)⟩
  · intro leads
    exact ⟨leads.1, fun other member => leads.2 other (rearranged.mem_iff.1 member)⟩

theorem last_max_append (entries : List (α × Nat)) (entry : α × Nat) :
    lastMax (entries ++ [entry]) =
      if (lastMax entries).elim 0 Prod.snd ≤ entry.2 then some entry else lastMax entries := by
  rw [lastMax, foldl_append]
  rfl

theorem first_max_append (entries : List (α × Nat)) (entry : α × Nat) :
    firstMax (entries ++ [entry]) =
      if (firstMax entries).elim 0 Prod.snd < entry.2 then some entry else firstMax entries := by
  rw [firstMax, foldl_append]
  rfl

variable {entry : α × Nat}

theorem leads_append_of_le
    (leads : Leads entries entry) (lower : last.2 ≤ entry.2) : Leads (entries ++ [last]) entry := by
  constructor
  · exact mem_append_left _ leads.1
  · intro other member
    rcases mem_append.1 member with earlier | isLast
    · exact leads.2 other earlier
    · rw [mem_singleton.1 isLast]
      exact lower

theorem leads_last
    (lower : ∀ other ∈ entries, other.2 ≤ last.2) : Leads (entries ++ [last]) last := by
  constructor
  · simp
  · intro other member
    rcases mem_append.1 member with earlier | isLast
    · exact lower other earlier
    · rw [mem_singleton.1 isLast]

theorem last_max_leads (picked : lastMax entries = some entry) : Leads entries entry := by
  induction entries using List.reverseRecOn generalizing entry with
  | nil => cases picked
  | append_singleton entries last ih =>
    rw [last_max_append] at picked
    split at picked
    · rename_i atLeast
      cases picked
      apply leads_last
      intro other member
      cases best : lastMax entries with
      | none =>
        cases entries using List.reverseRecOn with
        | nil => cases member
        | append_singleton rest final =>
          rw [last_max_append] at best
          split at best
          · cases best
          · rename_i above
            rw [best] at above
            simp at above
      | some best' =>
        rw [best] at atLeast
        exact le_trans ((ih best).2 other member) atLeast
    · rename_i above
      apply leads_append_of_le (ih picked)
      rw [picked] at above
      simp only [Option.elim_some] at above
      omega

theorem last_max_eq_none : lastMax entries = none ↔ entries = [] := by
  constructor
  · intro unpicked
    cases entries using List.reverseRecOn with
    | nil => rfl
    | append_singleton rest final =>
      rw [last_max_append] at unpicked
      split at unpicked
      · cases unpicked
      · rename_i above
        rw [unpicked] at above
        simp at above
  · intro empty
    rw [empty]
    rfl

theorem first_max_eq_none
    (positive : ∀ entry ∈ entries, 0 < entry.2) : firstMax entries = none ↔ entries = [] := by
  constructor
  · intro unpicked
    cases entries using List.reverseRecOn with
    | nil => rfl
    | append_singleton rest final =>
      rw [first_max_append] at unpicked
      split at unpicked
      · cases unpicked
      · rename_i above
        rw [unpicked] at above
        exact absurd (positive final (by simp)) above
  · intro empty
    rw [empty]
    rfl

theorem first_max_leads
    (positive : ∀ entry ∈ entries, 0 < entry.2) (picked : firstMax entries = some entry) :
    Leads entries entry := by
  induction entries using List.reverseRecOn generalizing entry with
  | nil => cases picked
  | append_singleton entries last ih =>
    have earlierPositive : ∀ entry ∈ entries, 0 < entry.2 := by
      intro entry member
      exact positive entry (mem_append_left _ member)
    rw [first_max_append] at picked
    split at picked
    · rename_i above
      cases picked
      apply leads_last
      intro other member
      cases best : firstMax entries with
      | none =>
        rw [(first_max_eq_none earlierPositive).1 best] at member
        cases member
      | some best' =>
        rw [best] at above
        exact le_trans ((ih earlierPositive best).2 other member) (le_of_lt above)
    · rename_i notAbove
      apply leads_append_of_le (ih earlierPositive picked)
      rw [picked] at notAbove
      exact not_lt.1 notAbove

theorem last_max_of_last
    (lower : ∀ other ∈ entries, other.2 ≤ last.2) : lastMax (entries ++ [last]) = some last := by
  rw [last_max_append, if_pos]
  cases best : lastMax entries with
  | none => exact Nat.zero_le _
  | some entry => exact lower entry (last_max_leads best).1

theorem first_max_of_head {first : α × Nat} (positive : 0 < first.2)
    (lower : ∀ other ∈ entries, other.2 ≤ first.2) : firstMax (first :: entries) = some first := by
  induction entries using List.reverseRecOn with
  | nil =>
    rw [← nil_append [first], first_max_append, if_pos]
    exact positive
  | append_singleton entries last ih =>
    rw [← cons_append, first_max_append,
      ih fun other member => lower other (mem_append_left _ member), if_neg]
    exact not_lt.2 (lower last (by simp))

/-- The walk that starts at the given place and wraps around. -/
def rotated (start : Nat) : Walk where
  enumerate entries := entries.rotate start
  perm entries := List.rotate_perm entries start

theorem enumerate_eq_nil (walk : Walk) (entries : List (α × Nat)) :
    walk.enumerate entries = [] ↔ entries = [] := by
  rw [← length_eq_zero_iff, walk.length_enumerate, length_eq_zero_iff]

/-- What `lastMax` may return is a best entry, and every best entry is returned on
some walk. -/
theorem last_max_walk :
    (∃ walk : Walk, lastMax (walk.enumerate entries) = some entry) ↔ Leads entries entry := by
  constructor
  · intro ⟨walk, picked⟩
    exact (leads_perm (walk.perm entries)).1 (last_max_leads picked)
  · intro leads
    obtain ⟨before, after, split⟩ := append_of_mem leads.1
    use rotated (before ++ [entry]).length
    have turned : (rotated (before ++ [entry]).length).enumerate entries =
        (after ++ before) ++ [entry] := by
      have regrouped : entries = (before ++ [entry]) ++ after := by simp [split]
      rw [regrouped]
      exact (rotate_append_length_eq _ _).trans (append_assoc _ _ _).symm
    rw [turned]
    apply last_max_of_last
    intro other member
    apply leads.2
    rw [split]
    rcases mem_append.1 member with later | earlier
    · exact mem_append_right _ (mem_cons_of_mem _ later)
    · exact mem_append_left _ earlier

theorem first_max_walk (keep : α × Nat → Bool) (positive : ∀ entry ∈ entries, 0 < entry.2) :
    (∃ walk : Walk, firstMax ((walk.enumerate entries).filter keep) = some entry) ↔
      Leads (entries.filter keep) entry := by
  constructor
  · intro ⟨walk, picked⟩
    apply (leads_perm ((walk.perm entries).filter keep)).1
    apply first_max_leads _ picked
    intro entry member
    exact positive entry (walk.mem_enumerate.1 (mem_filter.1 member).1)
  · intro leads
    obtain ⟨member, kept⟩ := mem_filter.1 leads.1
    obtain ⟨before, after, split⟩ := append_of_mem member
    use rotated before.length
    have turned : (rotated before.length).enumerate entries = entry :: (after ++ before) := by
      rw [split]
      exact rotate_append_length_eq _ _
    rw [turned, filter_cons_of_pos kept]
    apply first_max_of_head (positive entry member)
    intro other found
    obtain ⟨inTurned, keptToo⟩ := mem_filter.1 found
    apply leads.2 other (mem_filter.2 ⟨?_, keptToo⟩)
    rw [split]
    rcases mem_append.1 inTurned with later | earlier
    · exact mem_append_right _ (mem_cons_of_mem _ later)
    · exact mem_append_left _ earlier

section Keys

variable [DecidableEq κ] {items : List α} {key : α → κ} {wanted : κ} {same : α → α → Bool}
  {counts : List (α × Nat)}

def votes (key : α → κ) (items : List α) (wanted : κ) : Nat :=
  items.countP fun item => key item = wanted

theorem votes_perm (key : α → κ) {left right : List α} (rearranged : left.Perm right)
    (wanted : κ) : votes key left wanted = votes key right wanted :=
  rearranged.countP_eq _

theorem votes_append (key : α → κ) (left right : List α) (wanted : κ) :
    votes key (left ++ right) wanted = votes key left wanted + votes key right wanted :=
  countP_append

theorem votes_singleton (key : α → κ) (item : α) (wanted : κ) :
    votes key [item] wanted = if key item = wanted then 1 else 0 := by
  simp [votes, countP_singleton]

theorem votes_pos {item : α} (member : item ∈ items) : 0 < votes key items (key item) :=
  countP_pos_iff.2 ⟨item, member, by simp⟩

theorem exists_of_votes_pos
    (voted : 0 < votes key items wanted) : ∃ item ∈ items, key item = wanted := by
  obtain ⟨item, member, agrees⟩ := countP_pos_iff.1 voted
  exact ⟨item, member, by simpa using agrees⟩

theorem votes_filter_map {β : Type} (heard : β → Option κ) (items : List β) (wanted : κ) :
    votes id (items.filterMap heard) wanted = items.countP fun item => heard item = some wanted := by
  rw [votes, countP_filterMap]
  apply countP_congr
  intro item _
  cases heard item with
  | none => simp
  | some key => simp

/-- Every entry holds an item and the votes for its key, and no two entries share
their key. -/
structure Counts (key : α → κ) (items : List α) (counts : List (α × Nat)) : Prop where
  held : ∀ entry ∈ counts, entry.1 ∈ items ∧ entry.2 = votes key items (key entry.1)
  reached : ∀ item ∈ items, ∃ entry ∈ counts, key entry.1 = key item
  distinct : (counts.map fun entry => key entry.1).Nodup

variable {key : α → κ}

theorem bump_keys (agree : ∀ a b, same a b = true ↔ key a = key b) (item : α)
    (counts : List (α × Nat)) :
    ((bump same item counts).map fun entry => key entry.1) =
      if key item ∈ counts.map fun entry => key entry.1 then counts.map fun entry => key entry.1
      else (counts.map fun entry => key entry.1) ++ [key item] := by
  induction counts with
  | nil => simp [bump]
  | cons entry rest ih =>
    rw [bump]
    by_cases found : key entry.1 = key item
    · rw [if_pos ((agree _ _).2 found)]
      simp [found]
    · rw [if_neg (fun merged => found ((agree _ _).1 merged))]
      rw [map_cons, ih]
      have other : key item ≠ key entry.1 := fun eq => found eq.symm
      by_cases later : key item ∈ rest.map fun entry => key entry.1
      · rw [if_pos later, if_pos (by simp only [map_cons, mem_cons]; exact .inr later)]
        rfl
      · rw [if_neg later, if_neg]
        · rfl
        · simp only [map_cons, mem_cons, not_or]
          exact ⟨other, later⟩

theorem mem_bump (agree : ∀ a b, same a b = true ↔ key a = key b) {item : α}
    (distinct : (counts.map fun entry => key entry.1).Nodup) (member : entry ∈ bump same item counts) :
    (entry ∈ counts ∧ key entry.1 ≠ key item) ∨
      (∃ count, (entry.1, count) ∈ counts ∧ key entry.1 = key item ∧ entry.2 = count + 1) ∨
      (entry = (item, 1) ∧ key item ∉ counts.map fun entry => key entry.1) := by
  induction counts with
  | nil =>
    right
    right
    simpa [bump] using member
  | cons first rest ih =>
    have restDistinct : (rest.map fun entry => key entry.1).Nodup := (nodup_cons.1 distinct).2
    rw [bump] at member
    by_cases found : key first.1 = key item
    · rw [if_pos ((agree _ _).2 found)] at member
      rcases mem_cons.1 member with rfl | later
      · right
        left
        exact ⟨first.2, mem_cons_self, found, rfl⟩
      · left
        refine ⟨mem_cons_of_mem _ later, ?_⟩
        intro clash
        apply (nodup_cons.1 distinct).1
        exact mem_map.2 ⟨entry, later, clash.trans found.symm⟩
    · rw [if_neg (fun merged => found ((agree _ _).1 merged))] at member
      rcases mem_cons.1 member with rfl | later
      · left
        exact ⟨mem_cons_self, found⟩
      · rcases ih restDistinct later with kept | bumped | fresh
        · left
          exact ⟨mem_cons_of_mem _ kept.1, kept.2⟩
        · right
          left
          obtain ⟨count, inRest, sameKey, counted⟩ := bumped
          exact ⟨count, mem_cons_of_mem _ inRest, sameKey, counted⟩
        · right
          right
          refine ⟨fresh.1, ?_⟩
          simp only [map_cons, mem_cons, not_or]
          exact ⟨fun eq => found eq.symm, fresh.2⟩

theorem counts_bump (agree : ∀ a b, same a b = true ↔ key a = key b) (counted : Counts key items counts) (item : α) :
    Counts key (items ++ [item]) (bump same item counts) where
  held entry member := by
    rw [votes_append, votes_singleton]
    rcases mem_bump agree counted.distinct member with kept | bumped | fresh
    · have before := counted.held entry kept.1
      rw [if_neg (fun clash => kept.2 clash.symm)]
      exact ⟨mem_append_left _ before.1, before.2⟩
    · obtain ⟨count, inCounts, sameKey, raised⟩ := bumped
      have before := counted.held _ inCounts
      rw [if_pos sameKey.symm, raised, ← before.2]
      exact ⟨mem_append_left _ before.1, rfl⟩
    · obtain ⟨rfl, unseen⟩ := fresh
      have vacant : votes key items (key item) = 0 := by
        by_contra voted
        obtain ⟨earlier, inItems, sameKey⟩ := exists_of_votes_pos (Nat.pos_of_ne_zero voted)
        obtain ⟨entry, inCounts, entryKey⟩ := counted.reached earlier inItems
        apply unseen
        rw [← sameKey, ← entryKey]
        exact mem_map_of_mem inCounts
      rw [if_pos rfl, vacant]
      exact ⟨by simp, rfl⟩
  reached wanted member := by
    have inKeys : key wanted ∈ (bump same item counts).map fun entry => key entry.1 := by
      rw [bump_keys agree]
      rcases mem_append.1 member with earlier | isItem
      · obtain ⟨entry, inCounts, entryKey⟩ := counted.reached wanted earlier
        have inOld : key wanted ∈ counts.map fun entry => key entry.1 := by
          rw [← entryKey]
          exact mem_map_of_mem inCounts
        split
        · exact inOld
        · exact mem_append_left _ inOld
      · rw [mem_singleton.1 isItem]
        split
        · assumption
        · simp
    obtain ⟨entry, inCounts, entryKey⟩ := mem_map.1 inKeys
    exact ⟨entry, inCounts, entryKey⟩
  distinct := by
    rw [bump_keys agree]
    split
    · exact counted.distinct
    · rename_i unseen
      rw [nodup_append]
      refine ⟨counted.distinct, nodup_singleton _, ?_⟩
      intro left inLeft right inRight clash
      rw [mem_singleton.1 inRight] at clash
      rw [clash] at inLeft
      exact unseen inLeft

theorem counts_tally (agree : ∀ a b, same a b = true ↔ key a = key b) (items : List α) :
    Counts key items (tally same items) := by
  induction items using List.reverseRecOn with
  | nil => exact ⟨by simp [tally], by simp, by simp [tally]⟩
  | append_singleton items item ih =>
    rw [tally, foldl_append]
    exact counts_bump agree ih item

theorem Counts.positive (counted : Counts key items counts) : ∀ entry ∈ counts, 0 < entry.2 := by
  intro entry member
  rw [(counted.held entry member).2]
  exact votes_pos (counted.held entry member).1

def TopVoted (key : α → κ) (items : List α) (wanted : κ) : Prop :=
  0 < votes key items wanted ∧ ∀ other, votes key items other ≤ votes key items wanted

theorem top_voted_perm {left right : List α} (rearranged : left.Perm right) :
    TopVoted key left wanted ↔ TopVoted key right wanted := by
  unfold TopVoted
  simp only [votes_perm key rearranged]

theorem Counts.leads_iff (counted : Counts key items counts) :
    (∃ entry, Leads counts entry ∧ key entry.1 = wanted) ↔ TopVoted key items wanted := by
  constructor
  · rintro ⟨entry, leads, rfl⟩
    have own := (counted.held entry leads.1).2
    refine ⟨own ▸ counted.positive entry leads.1, ?_⟩
    intro other
    by_cases voted : votes key items other = 0
    · omega
    obtain ⟨item, inItems, sameKey⟩ := exists_of_votes_pos (Nat.pos_of_ne_zero voted)
    obtain ⟨rival, inCounts, rivalKey⟩ := counted.reached item inItems
    have below := leads.2 rival inCounts
    rw [(counted.held rival inCounts).2, rivalKey, sameKey, own] at below
    exact below
  · intro top
    obtain ⟨item, inItems, sameKey⟩ := exists_of_votes_pos top.1
    obtain ⟨entry, inCounts, entryKey⟩ := counted.reached item inItems
    refine ⟨entry, ⟨inCounts, ?_⟩, entryKey.trans sameKey⟩
    intro other otherIn
    rw [(counted.held other otherIn).2, (counted.held entry inCounts).2, entryKey, sameKey]
    exact top.2 _

section Reduced

variable (agree : ∀ a b, same a b = true ↔ key a = key b) {items : List α} {walk : Walk}

include agree

theorem tally_eq_nil : tally same items = [] ↔ items = [] := by
  have counted := counts_tally agree items
  constructor
  · intro empty
    rw [eq_nil_iff_forall_not_mem]
    intro item member
    obtain ⟨entry, inCounts, _⟩ := counted.reached item member
    rw [empty] at inCounts
    cases inCounts
  · intro empty
    rw [empty]
    rfl

theorem last_max_tally (picked : lastMax (walk.enumerate (tally same items)) = some entry) :
    entry.1 ∈ items ∧ TopVoted key items (key entry.1) ∧ entry.2 = votes key items (key entry.1) := by
  have counted := counts_tally agree items
  have leads := last_max_walk.1 ⟨walk, picked⟩
  have held := counted.held entry leads.1
  exact ⟨held.1, counted.leads_iff.1 ⟨entry, leads, rfl⟩, held.2⟩

theorem first_max_tally (picked : firstMax (walk.enumerate (tally same items)) = some entry) :
    entry.1 ∈ items ∧ TopVoted key items (key entry.1) ∧ entry.2 = votes key items (key entry.1) := by
  have counted := counts_tally agree items
  rw [← filter_true (walk.enumerate _)] at picked
  have leads := (first_max_walk _ counted.positive).1 ⟨walk, picked⟩
  rw [filter_true] at leads
  have held := counted.held entry leads.1
  exact ⟨held.1, counted.leads_iff.1 ⟨entry, leads, rfl⟩, held.2⟩

theorem last_max_tally_none : lastMax (walk.enumerate (tally same items)) = none ↔ items = [] := by
  rw [last_max_eq_none, enumerate_eq_nil, tally_eq_nil agree]

theorem first_max_tally_none :
    firstMax (walk.enumerate (tally same items)) = none ↔ items = [] := by
  rw [first_max_eq_none, enumerate_eq_nil, tally_eq_nil agree]
  intro entry member
  exact (counts_tally agree items).positive entry (walk.mem_enumerate.1 member)

theorem last_max_tally_reaches {wanted : κ} (top : TopVoted key items wanted) :
    ∃ (walk : Walk) (entry : α × Nat),
      lastMax (walk.enumerate (tally same items)) = some entry ∧ key entry.1 = wanted := by
  obtain ⟨entry, leads, entryKey⟩ := (counts_tally agree items).leads_iff.2 top
  obtain ⟨walk, picked⟩ := last_max_walk.2 leads
  exact ⟨walk, entry, picked, entryKey⟩

theorem first_max_tally_reaches {wanted : κ} (top : TopVoted key items wanted) :
    ∃ (walk : Walk) (entry : α × Nat),
      firstMax (walk.enumerate (tally same items)) = some entry ∧ key entry.1 = wanted := by
  have counted := counts_tally agree items
  obtain ⟨entry, leads, entryKey⟩ := counted.leads_iff.2 top
  rw [← filter_true (tally same items)] at leads
  obtain ⟨walk, picked⟩ := (first_max_walk _ counted.positive).2 leads
  rw [filter_true] at picked
  exact ⟨walk, entry, picked, entryKey⟩

theorem exists_top_voted (nonempty : items ≠ []) : ∃ wanted, TopVoted key items wanted := by
  cases picked : firstMax (Walk.sorted.enumerate (tally same items)) with
  | none => exact absurd ((first_max_tally_none agree).1 picked) nonempty
  | some entry => exact ⟨key entry.1, (first_max_tally agree picked).2.1⟩

end Reduced

end Keys

end Rustfs.Library.Tally
