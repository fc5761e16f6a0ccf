import Mathlib.Data.List.Pairwise
import Mathlib.Order.WithBot

/-!
# Merging sorted streams

Streams in the strict order of their keys are merged key by key. The key that was handed over
last says what is left of each stream. The next key is the least one that is left; a stream has
one entry for it at most, and that entry comes next in the stream.
-/

namespace Rustfs.Library.SortedMerge

open List

section Streams

variable {E K : Type} [LinearOrder K] (key : E → K)

def Increasing (stream : List E) : Prop := stream.Pairwise fun one two => key one < key two

instance (stream : List E) : Decidable (Increasing key stream) :=
  inferInstanceAs (Decidable (stream.Pairwise fun one two => key one < key two))

/-- What is left of a stream behind the last key. -/
def remainder (last : WithBot K) (stream : List E) : List E :=
  stream.filter fun entry => last < (key entry : WithBot K)

def entryFor (wanted : K) (stream : List E) : Option E := stream.find? fun entry => key entry = wanted

def Carries (streams : List (List E)) (wanted : K) : Prop :=
  ∃ stream ∈ streams, ∃ entry ∈ stream, key entry = wanted

variable {key} {last : WithBot K} {next : K} {stream : List E} {entry : E}

theorem mem_remainder : entry ∈ remainder key last stream ↔ entry ∈ stream ∧ last < (key entry : WithBot K) := by
  unfold remainder
  rw [mem_filter, decide_eq_true_iff]

theorem remainder_start : remainder key ⊥ stream = stream := by
  apply filter_eq_self.2
  intro entry _
  exact decide_eq_true (WithBot.bot_lt_coe _)

theorem remainder_increasing (increasing : Increasing key stream) :
    Increasing key (remainder key last stream) :=
  increasing.filter _

theorem remainder_later (later : last ≤ (next : WithBot K)) :
    remainder key next stream = (remainder key last stream).filter fun entry => next < key entry := by
  unfold remainder
  rw [filter_filter]
  apply filter_congr
  intro entry _
  rw [Bool.eq_iff_iff, Bool.and_eq_true, decide_eq_true_iff, decide_eq_true_iff, decide_eq_true_iff,
    WithBot.coe_lt_coe]
  exact ⟨fun less => ⟨less, later.trans_lt (WithBot.coe_lt_coe.2 less)⟩, fun both => both.1⟩

theorem entry_for_remainder (later : last < (next : WithBot K)) :
    entryFor key next stream = entryFor key next (remainder key last stream) := by
  unfold entryFor remainder
  rw [find?_filter]
  congr 1
  funext entry
  rw [Bool.eq_iff_iff]
  simp only [decide_eq_true_eq]
  constructor
  · intro same
    rw [same]
    exact ⟨later, rfl⟩
  · exact fun both => both.2

theorem next_cases (increasing : Increasing key stream) (later : last < (next : WithBot K))
    (least : ∀ entry ∈ remainder key last stream, next ≤ key entry) :
    (∃ entry rest, remainder key last stream = entry :: rest ∧ key entry = next ∧
        entryFor key next stream = some entry ∧ remainder key next stream = rest) ∨
      ((∀ entry ∈ remainder key last stream, next < key entry) ∧ entryFor key next stream = none ∧
        remainder key next stream = remainder key last stream) := by
  have ordered := @remainder_increasing _ _ _ _ last _ increasing
  rw [entry_for_remainder later, remainder_later later.le]
  generalize remainder key last stream = left at ordered least
  cases left with
  | nil => exact .inr ⟨by simp, rfl, rfl⟩
  | cons entry rest =>
    obtain ⟨above, _⟩ := pairwise_cons.1 ordered
    rcases (least entry mem_cons_self).eq_or_lt with same | less
    · left
      refine ⟨entry, rest, rfl, same.symm, ?_, ?_⟩
      · exact find?_cons_of_pos (decide_eq_true same.symm)
      · rw [filter_cons_of_neg (by rw [decide_eq_true_iff, same]; exact lt_irrefl _)]
        apply filter_eq_self.2
        intro other member
        rw [same]
        exact decide_eq_true (above other member)
    · right
      have all : ∀ other ∈ entry :: rest, next < key other := by
        intro other member
        rcases mem_cons.1 member with rfl | inRest
        · exact less
        · exact less.trans (above other inRest)
      refine ⟨all, ?_, ?_⟩
      · apply find?_eq_none.2
        intro other member same
        exact (all other member).ne' (of_decide_eq_true same)
      · apply filter_eq_self.2
        intro other member
        exact decide_eq_true (all other member)

theorem entry_for_some (found : entryFor key next stream = some entry) :
    entry ∈ stream ∧ key entry = next := by
  refine ⟨mem_of_find?_eq_some found, ?_⟩
  have holds := find?_some found
  exact of_decide_eq_true holds

theorem entry_for_member (increasing : Increasing key stream) (member : entry ∈ stream) :
    entryFor key (key entry) stream = some entry := by
  cases found : entryFor key (key entry) stream with
  | none => exact absurd (decide_eq_true rfl) (find?_eq_none.1 found entry member)
  | some other =>
    obtain ⟨isOther, same⟩ := entry_for_some found
    by_contra different
    have symmetric : Std.Symm fun one two : E => key one ≠ key two := ⟨fun _ _ apart => apart.symm⟩
    have apart : stream.Pairwise fun one two => key one ≠ key two := increasing.imp fun less => less.ne
    exact apart.forall isOther member (fun equal => different (by rw [equal])) same

end Streams

section Handed

variable {E K : Type} [LinearOrder K] {key : E → K} {streams : List (List E)} {last : WithBot K}
  {keys : List K}

structure Handed (key : E → K) (streams : List (List E)) (last : WithBot K) (keys : List K) : Prop where
  increasing : keys.Pairwise (· < ·)
  exact : ∀ wanted, wanted ∈ keys ↔ (wanted : WithBot K) ≤ last ∧ Carries key streams wanted

theorem handed_start : Handed key streams ⊥ [] where
  increasing := List.Pairwise.nil
  exact := by
    intro wanted
    refine iff_of_false not_mem_nil ?_
    rintro ⟨below, _⟩
    exact WithBot.coe_ne_bot (le_bot_iff.1 below)

theorem handed_next (handed : Handed key streams last keys) {next : K} (later : last < (next : WithBot K))
    (carried : Carries key streams next)
    (least : ∀ stream ∈ streams, ∀ entry ∈ remainder key last stream, next ≤ key entry) :
    Handed key streams next (keys ++ [next]) where
  increasing := by
    rw [pairwise_append]
    refine ⟨handed.increasing, pairwise_singleton _ _, ?_⟩
    intro wanted member other isNext
    rw [mem_singleton.1 isNext]
    exact WithBot.coe_lt_coe.1 (((handed.exact wanted).1 member).1.trans_lt later)
  exact := by
    intro wanted
    rw [mem_append, mem_singleton, handed.exact]
    constructor
    · rintro (⟨below, isCarried⟩ | rfl)
      · exact ⟨below.trans later.le, isCarried⟩
      · exact ⟨le_rfl, carried⟩
    · rintro ⟨below, isCarried⟩
      by_cases earlier : (wanted : WithBot K) ≤ last
      · exact .inl ⟨earlier, isCarried⟩
      · obtain ⟨stream, isStream, entry, isEntry, rfl⟩ := isCarried
        have isLeft := mem_remainder.2 ⟨isEntry, not_le.1 earlier⟩
        exact .inr (le_antisymm (WithBot.coe_le_coe.1 below) (least stream isStream entry isLeft))

theorem handed_all (handed : Handed key streams last keys)
    (done : ∀ stream ∈ streams, remainder key last stream = []) (wanted : K) :
    wanted ∈ keys ↔ Carries key streams wanted := by
  rw [handed.exact]
  refine ⟨fun both => both.2, fun isCarried => ⟨?_, isCarried⟩⟩
  obtain ⟨stream, isStream, entry, isEntry, rfl⟩ := isCarried
  by_contra later
  have isLeft : entry ∈ remainder key last stream := mem_remainder.2 ⟨isEntry, not_le.1 later⟩
  rw [done stream isStream] at isLeft
  cases isLeft

end Handed

end Rustfs.Library.SortedMerge
