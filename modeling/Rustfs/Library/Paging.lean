import Mathlib.Data.List.Induction
import Mathlib.Data.List.Lex
import Mathlib.Data.List.Pairwise
import Mathlib.Logic.Relation
import Mathlib.Order.Lattice

/-!
# Listings in pages

A listing is read page by page, each page naming the marker of the next one. If every page
accounts for what lies between its marker and the next, the pages of a run that ends add up to
the listing. Entries are shown as they are or folded under a common name; entries folded under
one name are neighbours, and a name is shown once.
-/

namespace Rustfs.Library.Paging

open List

section Runs

variable {M I : Type} (follow : M → Option M) {marker : M} {visited : List M} {start : M}

/-- The markers of a run that ends. -/
inductive Run : M → List M → Prop
  | last {marker : M} : follow marker = none → Run marker [marker]
  | more {marker next : M} {rest : List M} : follow marker = some next → Run next rest →
      Run marker (marker :: rest)

def Reaches (start marker : M) : Prop :=
  Relation.ReflTransGen (fun one two => follow one = some two) start marker

variable {follow}

theorem run_total {expected shown : M → List I} {marker : M} {visited : List M}
    (run : Run follow marker visited) (accounts : ∀ marker ∈ visited,
      expected marker = shown marker ++ ((follow marker).map expected).getD []) :
    visited.flatMap shown = expected marker := by
  induction run with
  | last ends =>
    have here := accounts _ mem_cons_self
    rw [ends] at here
    simpa using here.symm
  | more goes _ ih =>
    have here := accounts _ mem_cons_self
    have others := ih fun marker member => accounts marker (mem_cons_of_mem _ member)
    rw [goes] at here
    rw [flatMap_cons, others, here]
    rfl

theorem reaches_step {start next : M} (reached : Reaches follow start marker)
    (goes : follow marker = some next) : Reaches follow start next :=
  reached.tail goes

theorem visited_reached (run : Run follow start visited) :
    ∀ marker ∈ visited, Reaches follow start marker := by
  induction run with
  | last _ =>
    intro marker member
    rw [mem_singleton.1 member]
    exact .refl
  | more goes _ ih =>
    intro marker member
    rcases mem_cons.1 member with rfl | inRest
    · exact .refl
    · exact Relation.ReflTransGen.head goes (ih marker inRest)

theorem start_visited (run : Run follow start visited) : start ∈ visited := by
  cases run with
  | last _ | more _ _ => exact mem_cons_self

theorem run_suffix {start : M} (run : Run follow start visited)
    (reached : Reaches follow start marker) :
    ∃ before after, visited = before ++ after ∧ Run follow marker after := by
  induction reached with
  | refl => exact ⟨[], visited, rfl, run⟩
  | @tail middle _ _ goes ih =>
    obtain ⟨before, after, rfl, further⟩ := ih
    cases further with
    | last ends =>
      rw [goes] at ends
      cases ends
    | more isNext rest =>
      rw [goes] at isNext
      cases isNext
      exact ⟨before ++ [middle], _, by simp, rest⟩

theorem run_ends (measure : M → Nat)
    (shrinks : ∀ marker next, Reaches follow start marker → follow marker = some next →
      measure next < measure marker) : ∃ visited, Run follow start visited := by
  have from_here : ∀ bound marker, measure marker ≤ bound → Reaches follow start marker →
      ∃ visited, Run follow marker visited := by
    intro bound
    induction bound with
    | zero =>
      intro marker small reached
      cases goes : follow marker with
      | none => exact ⟨_, .last goes⟩
      | some next =>
        have smaller := shrinks marker next reached goes
        omega
    | succ bound ih =>
      intro marker small reached
      cases goes : follow marker with
      | none => exact ⟨_, .last goes⟩
      | some next =>
        have smaller := shrinks marker next reached goes
        obtain ⟨visited, run⟩ := ih next (by omega) (reaches_step reached goes)
        exact ⟨_, .more goes run⟩
  exact from_here _ start le_rfl .refl

theorem no_run_of_loop (loop : follow marker = some marker) :
    ∀ visited, ¬ Run follow marker visited := by
  intro visited
  induction visited with
  | nil =>
    intro run
    cases run
  | cons first rest ih =>
    intro run
    cases run with
    | last ends =>
      rw [loop] at ends
      cases ends
    | more goes further =>
      rw [loop] at goes
      cases goes
      exact ih further

end Runs

inductive Shown (N A : Type)
  | folded (under : N)
  | listed (items : List A)
  deriving DecidableEq

inductive Item (N A : Type)
  | common (name : N)
  | object (item : A)
  deriving DecidableEq

variable {N A : Type}

def Shown.items : Shown N A → List A
  | .folded _ => []
  | .listed items => items

def Item.object? : Item N A → Option A
  | .common _ => none
  | .object item => some item

def Item.common? : Item N A → Option N
  | .common name => some name
  | .object _ => none

def objectsOf (items : List (Item N A)) : List A := items.filterMap Item.object?

def commonsOf (items : List (Item N A)) : List N := items.filterMap Item.common?

/-- The items of the entries; a common name that was the last one is not repeated. -/
def collect [DecidableEq N] : N → List (Shown N A) → List (Item N A)
  | _, [] => []
  | last, .folded under :: rest =>
    if under = last then collect last rest else .common under :: collect under rest
  | last, .listed items :: rest => items.map .object ++ collect last rest

/-- The last common name after some entries. -/
def lastFold : N → List (Shown N A) → N
  | last, [] => last
  | _, .folded under :: rest => lastFold under rest
  | last, .listed _ :: rest => lastFold last rest

attribute [local simp] collect lastFold

@[simp] theorem objects_of_append (front back : List (Item N A)) :
    objectsOf (front ++ back) = objectsOf front ++ objectsOf back := filterMap_append

@[simp] theorem commons_of_append (front back : List (Item N A)) :
    commonsOf (front ++ back) = commonsOf front ++ commonsOf back := filterMap_append

@[simp] theorem objects_of_objects (items : List A) :
    objectsOf (items.map Item.object : List (Item N A)) = items := by
  induction items with
  | nil => rfl
  | cons item rest ih => exact congrArg (item :: ·) ih

@[simp] theorem commons_of_objects (items : List A) :
    commonsOf (items.map Item.object : List (Item N A)) = [] := by
  induction items with
  | nil => rfl
  | cons item rest ih => exact ih

section Collect

variable [DecidableEq N] {last : N} {entries rest : List (Shown N A)} {item : Item N A}

theorem collect_append (front back : List (Shown N A)) :
    ∀ last : N, collect last (front ++ back) = collect last front ++ collect (lastFold last front) back := by
  induction front with
  | nil => exact fun _ => rfl
  | cons shown rest ih =>
    intro last
    cases shown with
    | folded under =>
      simp only [cons_append, collect, lastFold]
      by_cases same : under = last
      · rw [if_pos same, if_pos same, ih, same]
      · rw [if_neg same, if_neg same, ih, cons_append]
    | listed items =>
      simp only [cons_append, collect, lastFold]
      rw [ih, append_assoc]

theorem collect_fresh (other : N) (fresh : Shown.folded last ∉ entries)
    (otherFresh : Shown.folded other ∉ entries) : collect last entries = collect other entries := by
  induction entries with
  | nil => rfl
  | cons shown rest ih =>
    rw [mem_cons, not_or] at fresh otherFresh
    cases shown with
    | folded under =>
      have notLast : under ≠ last := fun same => fresh.1 (by rw [same])
      have notOther : under ≠ other := fun same => otherFresh.1 (by rw [same])
      rw [collect, collect, if_neg notLast, if_neg notOther]
    | listed items => rw [collect, collect, ih fresh.2 otherFresh.2]

theorem objects_collect (entries : List (Shown N A)) :
    ∀ last : N, objectsOf (collect last entries) = entries.flatMap Shown.items := by
  induction entries with
  | nil => exact fun _ => rfl
  | cons shown rest ih =>
    intro last
    cases shown with
    | folded under =>
      rw [collect]
      split
      · exact ih last
      · exact ih under
    | listed items =>
      rw [collect, objects_of_append, objects_of_objects, ih]
      rfl

theorem mem_of_mem_commons {name : N} :
    ∀ {last : N}, name ∈ commonsOf (collect last entries) → Shown.folded name ∈ entries := by
  induction entries with
  | nil =>
    intro last member
    cases member
  | cons shown rest ih =>
    intro last member
    cases shown with
    | folded under =>
      rw [collect] at member
      split at member
      · exact mem_cons_of_mem _ (ih member)
      · rcases mem_cons.1 member with rfl | inRest
        · exact mem_cons_self
        · exact mem_cons_of_mem _ (ih inRest)
    | listed items =>
      rw [collect, commons_of_append, commons_of_objects, nil_append] at member
      exact mem_cons_of_mem _ (ih member)

theorem mem_commons_of_mem {name : N} :
    ∀ {last : N}, Shown.folded name ∈ entries → name = last ∨ name ∈ commonsOf (collect last entries) := by
  induction entries with
  | nil =>
    intro last member
    cases member
  | cons shown rest ih =>
    intro last member
    cases shown with
    | folded under =>
      rw [collect]
      by_cases same : under = last
      · rw [if_pos same]
        rcases mem_cons.1 member with isUnder | inRest
        · cases isUnder
          exact .inl same
        · exact ih inRest
      · rw [if_neg same]
        rcases mem_cons.1 member with isUnder | inRest
        · cases isUnder
          exact .inr mem_cons_self
        · rcases @ih under inRest with isUnder | inCommons
          · rw [isUnder]
            exact .inr mem_cons_self
          · exact .inr (mem_cons_of_mem _ inCommons)
    | listed items =>
      rw [collect, commons_of_append, commons_of_objects, nil_append]
      rcases mem_cons.1 member with impossible | inRest
      · cases impossible
      · exact ih inRest

omit [DecidableEq N] in
theorem last_fold_cases (entries : List (Shown N A)) :
    ∀ last : N, lastFold last entries = last ∨ Shown.folded (lastFold last entries) ∈ entries := by
  induction entries with
  | nil => exact fun _ => .inl rfl
  | cons shown rest ih =>
    intro last
    cases shown with
    | folded under =>
      rw [lastFold]
      rcases ih under with same | inRest
      · rw [same]
        exact .inr mem_cons_self
      · exact .inr (mem_cons_of_mem _ inRest)
    | listed items =>
      rcases ih last with same | inRest
      · exact .inl same
      · exact .inr (mem_cons_of_mem _ inRest)

omit [DecidableEq N] in
theorem last_fold_append (front back : List (Shown N A)) :
    ∀ last : N, lastFold last (front ++ back) = lastFold (lastFold last front) back := by
  induction front with
  | nil => exact fun _ => rfl
  | cons shown rest ih =>
    intro last
    cases shown with
    | folded under => exact ih under
    | listed items => exact ih last

theorem collect_item_split {kept rest : List (Item N A)} (entries : List (Shown N A)) :
    ∀ last : N, collect last entries = kept ++ item :: rest →
      ∃ front shown back, entries = front ++ shown :: back ∧
        ((∃ object before after, item = .object object ∧ shown = .listed (before ++ object :: after) ∧
            kept = collect last front ++ before.map .object ∧
            rest = after.map .object ++ collect (lastFold last front) back) ∨
          ∃ name, item = .common name ∧ shown = .folded name ∧ kept = collect last front ∧
            rest = collect name back) := by
  induction entries generalizing kept with
  | nil =>
    intro last split
    cases kept <;> cases split
  | cons shown others ih =>
    intro last split
    cases shown with
    | folded under =>
      rw [collect] at split
      by_cases same : under = last
      · rw [if_pos same] at split
        obtain ⟨front, entry, back, rfl, shows⟩ := ih last split
        refine ⟨.folded under :: front, entry, back, rfl, ?_⟩
        rw [collect, if_pos same, lastFold, same]
        exact shows
      · rw [if_neg same] at split
        cases kept with
        | nil =>
          obtain ⟨isItem, isRest⟩ := List.cons.inj split
          exact ⟨[], .folded under, others, rfl, .inr ⟨under, isItem.symm, rfl, rfl, isRest.symm⟩⟩
        | cons first kept =>
          obtain ⟨isFirst, remains⟩ := List.cons.inj split
          subst isFirst
          obtain ⟨front, entry, back, rfl, shows⟩ := ih under remains
          refine ⟨.folded under :: front, entry, back, rfl, ?_⟩
          rw [collect, if_neg same, lastFold]
          rcases shows with ⟨object, before, after, isItem, isShown, isKept, isRest⟩ |
            ⟨name, isItem, isShown, isKept, isRest⟩
          · exact .inl ⟨object, before, after, isItem, isShown, by rw [isKept]; rfl, isRest⟩
          · exact .inr ⟨name, isItem, isShown, by rw [isKept], isRest⟩
    | listed items =>
      rcases append_eq_append_iff.1 split with ⟨more, isKept, isRest⟩ | ⟨more, isItems, isRest⟩
      · obtain ⟨front, entry, back, rfl, shows⟩ := ih last isRest
        refine ⟨.listed items :: front, entry, back, rfl, ?_⟩
        rw [collect, lastFold, isKept]
        rcases shows with ⟨object, before, after, isItem, isShown, isMore, isRest⟩ |
          ⟨name, isItem, isShown, isMore, isRest⟩
        · exact .inl ⟨object, before, after, isItem, isShown, by rw [isMore, append_assoc], isRest⟩
        · exact .inr ⟨name, isItem, isShown, by rw [isMore], isRest⟩
      · cases more with
        | nil =>
          rw [append_nil] at isItems
          obtain ⟨front, entry, back, rfl, shows⟩ := @ih [] last isRest.symm
          refine ⟨.listed items :: front, entry, back, rfl, ?_⟩
          rw [collect, lastFold, isItems]
          rcases shows with ⟨object, before, after, isItem, isShown, isMore, isRest⟩ |
            ⟨name, isItem, isShown, isMore, isRest⟩
          · exact .inl ⟨object, before, after, isItem, isShown,
              by rw [append_assoc, ← isMore, append_nil], isRest⟩
          · exact .inr ⟨name, isItem, isShown, by rw [← isMore, append_nil], isRest⟩
        | cons first more =>
          obtain ⟨isFirst, remains⟩ := List.cons.inj isRest
          subst isFirst
          obtain ⟨before, behind, rfl, rfl, isBehind⟩ := map_eq_append_iff.1 isItems
          obtain ⟨object, after, rfl, rfl, rfl⟩ := map_eq_cons_iff.1 isBehind
          exact ⟨[], .listed (before ++ object :: after), others, rfl,
            .inl ⟨object, before, after, rfl, rfl, rfl, remains⟩⟩

/-- The entry that shows the last item of a page which does not hold all of them. -/
theorem collect_stop {E : Type} {shown : E → Shown N A} {entries : List E} {keys : Nat}
    (positive : 0 < keys) (longer : keys < (collect last (entries.map shown)).length) :
    ∃ item front entry back, ((collect last (entries.map shown)).take keys).getLast? = some item ∧
      entries = front ++ entry :: back ∧
      ((∃ object before after, item = .object object ∧ shown entry = .listed (before ++ object :: after) ∧
          (collect last (entries.map shown)).take keys =
            collect last (front.map shown) ++ (before ++ [object]).map .object) ∨
        ∃ name, item = .common name ∧ shown entry = .folded name ∧
          (collect last (entries.map shown)).take keys =
            collect last (front.map shown) ++ [.common name] ∧
          name ≠ lastFold last (front.map shown)) := by
  obtain ⟨init, item, isKept⟩ : ∃ init item,
      (collect last (entries.map shown)).take keys = init ++ [item] := by
    rcases eq_nil_or_concat ((collect last (entries.map shown)).take keys) with
      empty | ⟨init, item, isKept⟩
    · have length := congrArg List.length empty
      rw [length_take, length_nil] at length
      omega
    · exact ⟨init, item, by rw [isKept, concat_eq_append]⟩
  have split : collect last (entries.map shown) =
      init ++ item :: (collect last (entries.map shown)).drop keys := by
    rw [append_cons, ← isKept]
    exact (take_append_drop _ _).symm
  obtain ⟨shownFront, shows, shownBack, mapped, cases⟩ := collect_item_split _ last split
  obtain ⟨front, rest, isEntries, rfl, isRest⟩ := map_eq_append_iff.1 mapped
  obtain ⟨entry, back, rfl, rfl, rfl⟩ := map_eq_cons_iff.1 isRest
  refine ⟨item, front, entry, back, by rw [isKept, getLast?_concat], isEntries, ?_⟩
  rcases cases with ⟨object, before, after, rfl, isShown, isInit, _⟩ | ⟨name, rfl, isShown, isInit, remains⟩
  · refine .inl ⟨object, before, after, rfl, isShown, ?_⟩
    rw [isKept, isInit, map_append, ← append_assoc]
    rfl
  · refine .inr ⟨name, rfl, isShown, by rw [isKept, isInit], ?_⟩
    intro same
    have again : collect last (entries.map shown) = init ++ collect name (back.map shown) := by
      rw [isEntries, map_append, collect_append, map_cons, isShown, ← same, collect,
        if_pos rfl, isInit]
    rw [split, ← remains] at again
    have lengths := congrArg List.length (append_cancel_left again)
    rw [length_cons] at lengths
    omega

theorem collect_length_le (entries : List (Shown N A))
    (single : ∀ shown ∈ entries, shown.items.length ≤ 1) :
    ∀ last : N, (collect last entries).length ≤ entries.length := by
  induction entries with
  | nil => exact fun _ => le_rfl
  | cons shown rest ih =>
    intro last
    obtain ⟨here, others⟩ := forall_mem_cons.1 single
    rw [length_cons]
    cases shown with
    | folded under =>
      rw [collect]
      split
      · exact Nat.le_succ_of_le (ih others last)
      · exact Nat.succ_le_succ (ih others under)
    | listed items =>
      rw [collect, length_append, length_map]
      have itemsShort : items.length ≤ 1 := here
      have restShort := ih others last
      omega

theorem collect_front {front back : List (Shown N A)}
    (single : ∀ shown ∈ front ++ back, shown.items.length ≤ 1)
    (dense : (front ++ back).length ≤ (collect last (front ++ back)).length) :
    collect last front = (collect last (front ++ back)).take front.length ∧
      back.length ≤ (collect (lastFold last front) back).length := by
  obtain ⟨frontSingle, backSingle⟩ := forall_mem_append.1 single
  have frontShort := collect_length_le front frontSingle last
  have backShort := collect_length_le back backSingle (lastFold last front)
  rw [collect_append, length_append, length_append] at dense
  have frontDense : (collect last front).length = front.length := by omega
  refine ⟨?_, by omega⟩
  rw [collect_append, ← frontDense, take_left]

theorem collect_last_split (entries : List (Shown N A))
    (single : ∀ shown ∈ entries, shown.items.length ≤ 1)
    (isLast : (collect last entries).getLast? = some item) :
    ∃ front shown back, entries = front ++ shown :: back ∧
      collect (lastFold last (front ++ [shown])) back = [] ∧
      ((∃ object, item = .object object ∧ shown = .listed [object]) ∨
        ∃ name, item = .common name ∧ shown = .folded name) := by
  induction entries using List.reverseRecOn with
  | nil => cases isLast
  | append_singleton init shown ih =>
    obtain ⟨initSingle, here⟩ := forall_mem_append.1 single
    rw [collect_append] at isLast
    by_cases new : collect (lastFold last init) [shown] = []
    · rw [new, append_nil] at isLast
      obtain ⟨front, entry, back, rfl, nothing, shows⟩ := ih initSingle isLast
      refine ⟨front, entry, back ++ [shown], by simp, ?_, shows⟩
      rw [append_cons, last_fold_append] at new
      rw [collect_append, nothing, nil_append]
      exact new
    · refine ⟨init, shown, [], rfl, rfl, ?_⟩
      rw [getLast?_append_of_ne_nil _ new] at isLast
      cases shown with
      | folded under =>
        rw [collect] at isLast new
        split at isLast
        · cases isLast
        · cases isLast
          exact .inr ⟨under, rfl, rfl⟩
      | listed items =>
        have short : items.length ≤ 1 := here _ mem_cons_self
        match items, short with
        | [], _ => exact absurd rfl new
        | [object], _ =>
          cases isLast
          exact .inl ⟨object, rfl, rfl⟩

end Collect

section Ordered

variable [LinearOrder N] {E : Type} {last : N} {entries : List (Shown N A)} {name : E → N}
  {shown : E → Shown N A} {all front back : List E} {entry : E} {start : N}

/-- Later entries are folded under the same or later names. -/
def FoldsUp (entries : List (Shown N A)) : Prop :=
  entries.Pairwise fun one two => ∀ p q, one = .folded p → two = .folded q → p ≤ q

theorem commons_above (up : FoldsUp entries) (above : ∀ q, Shown.folded q ∈ entries → last ≤ q) :
    ∀ name ∈ commonsOf (collect last entries), last < name := by
  induction entries generalizing last with
  | nil =>
    intro name member
    cases member
  | cons shown rest ih =>
    obtain ⟨here, restUp⟩ := pairwise_cons.1 up
    have restAbove : ∀ q, Shown.folded q ∈ rest → last ≤ q := fun q member =>
      above q (mem_cons_of_mem _ member)
    intro name member
    cases shown with
    | folded under =>
      rw [collect] at member
      split at member
      · exact ih restUp restAbove name member
      · rename_i different
        have later : last < under :=
          lt_of_le_of_ne (above under mem_cons_self) fun same => different same.symm
        rcases mem_cons.1 member with rfl | inRest
        · exact later
        · exact later.trans (ih restUp (fun q member => here _ member under q rfl rfl) name inRest)
    | listed items =>
      rw [collect, commons_of_append, commons_of_objects, nil_append] at member
      exact ih restUp restAbove name member

theorem commons_increasing (up : FoldsUp entries) :
    ∀ last : N, (commonsOf (collect last entries)).Pairwise (· < ·) := by
  induction entries with
  | nil => exact fun _ => List.Pairwise.nil
  | cons shown rest ih =>
    intro last
    obtain ⟨here, restUp⟩ := pairwise_cons.1 up
    cases shown with
    | folded under =>
      rw [collect]
      split
      · exact ih restUp last
      · refine pairwise_cons.2 ⟨?_, ih restUp under⟩
        exact commons_above restUp fun q member => here _ member under q rfl rfl
    | listed items =>
      rw [collect, commons_of_append, commons_of_objects, nil_append]
      exact ih restUp last

/-- Entries in the order of their names, where what lies between a common name and an entry
under it is under it as well, or shows nothing. -/
structure Folds (name : E → N) (shown : E → Shown N A) (entries : List E) : Prop where
  sorted : entries.Pairwise fun one two => name one < name two
  below : ∀ entry ∈ entries, ∀ under, shown entry = .folded under → under ≤ name entry
  between : ∀ entry ∈ entries, ∀ under, shown entry = .folded under → ∀ other ∈ entries,
    under ≤ name other → name other ≤ name entry → shown other = .folded under ∨ shown other = .listed []

theorem folds_sublist (folds : Folds name shown all) (within : front.Sublist all) :
    Folds name shown front where
  sorted := folds.sorted.sublist within
  below := fun entry member => folds.below entry (within.subset member)
  between := fun entry member under isUnder other isOther =>
    folds.between entry (within.subset member) under isUnder other (within.subset isOther)

theorem folds_up (folds : Folds name shown all) : FoldsUp (all.map shown) := by
  unfold FoldsUp
  rw [pairwise_map]
  apply folds.sorted.imp_of_mem
  intro one two isOne isTwo before p q onP twoQ
  by_contra falls
  rw [not_le] at falls
  have between := folds.between two isTwo q twoQ one isOne
    (falls.le.trans (folds.below one isOne p onP)) before.le
  rw [onP] at between
  rcases between with same | impossible
  · cases same
    exact lt_irrefl _ falls
  · cases impossible

theorem not_folded_behind (folds : Folds name shown (front ++ back)) {before after : E}
    {under : N} (isEntry : entry ∈ front ++ back) (apart : shown entry ≠ .folded under)
    (shows : shown entry ≠ .listed []) (isBefore : before ∈ front ++ back)
    (beforeUnder : shown before = .folded under) (later : name before ≤ name entry)
    (isAfter : after ∈ front ++ back) (behind : name entry ≤ name after) :
    shown after ≠ .folded under := by
  intro afterUnder
  rcases folds.between after isAfter under afterUnder entry isEntry
    ((folds.below before isBefore under beforeUnder).trans later) behind with folded | hidden
  · exact apart folded
  · exact shows hidden

theorem collect_cut (unfolded : ∀ entry ∈ front ++ back, shown entry ≠ .folded start)
    (clean : ∀ entry ∈ back, shown entry ≠ .folded (lastFold start (front.map shown))) :
    collect start ((front ++ back).map shown) =
      collect start (front.map shown) ++ collect start (back.map shown) := by
  rw [map_append, collect_append]
  congr 1
  apply collect_fresh
  · intro member
    obtain ⟨entry, isEntry, isLast⟩ := mem_map.1 member
    exact clean entry isEntry isLast
  · intro member
    obtain ⟨entry, isEntry, isStart⟩ := mem_map.1 member
    exact unfolded entry (mem_append_right _ isEntry) isStart

/-- A listing is cut behind an object: what was in front of it does not matter any more. -/
theorem collect_at_object {before after : List A} {object : A}
    (folds : Folds name shown (front ++ entry :: back))
    (unfolded : ∀ other ∈ front ++ entry :: back, shown other ≠ .folded start)
    (listed : shown entry = .listed (before ++ object :: after)) :
    collect start ((front ++ entry :: back).map shown) =
      (collect start (front.map shown) ++ (before ++ [object]).map .object) ++
        (after.map .object ++ collect start (back.map shown)) := by
  obtain ⟨_, tailSorted, frontBelow⟩ := pairwise_append.1 folds.sorted
  obtain ⟨backAbove, _⟩ := pairwise_cons.1 tailSorted
  have apart : ∀ under, shown entry ≠ .folded under := by
    intro under same
    rw [listed] at same
    cases same
  have shows : shown entry ≠ .listed [] := by
    rw [listed]
    simp
  have fresh : collect (lastFold start (front.map shown)) (back.map shown) =
      collect start (back.map shown) := by
    have startFresh : Shown.folded start ∉ back.map shown := by
      intro member
      obtain ⟨other, isOther, folded⟩ := mem_map.1 member
      exact unfolded other (mem_append_right _ (mem_cons_of_mem _ isOther)) folded
    apply collect_fresh _ _ startFresh
    rcases last_fold_cases (front.map shown) start with isStart | inFront
    · rw [isStart]
      exact startFresh
    · obtain ⟨earlier, isEarlier, earlierFolded⟩ := mem_map.1 inFront
      intro member
      obtain ⟨other, isOther, folded⟩ := mem_map.1 member
      exact not_folded_behind folds (mem_append_right _ mem_cons_self) (apart _) shows
        (mem_append_left _ isEarlier) earlierFolded
        (frontBelow earlier isEarlier entry mem_cons_self).le
        (mem_append_right _ (mem_cons_of_mem _ isOther)) (backAbove other isOther).le folded
  rw [map_append, collect_append, map_cons, listed, collect, fresh]
  simp

omit [LinearOrder N] in
theorem collect_at_common [DecidableEq N] {under : N}
    (unfolded : ∀ other ∈ back, shown other ≠ .folded start) (folded : shown entry = .folded under)
    (fresh : under ≠ lastFold start (front.map shown))
    (alone : ∀ other ∈ back, shown other ≠ .folded under) :
    collect start ((front ++ entry :: back).map shown) =
      (collect start (front.map shown) ++ [.common under]) ++ collect start (back.map shown) := by
  have again : collect under (back.map shown) = collect start (back.map shown) := by
    apply collect_fresh
    · intro member
      obtain ⟨other, isOther, isUnder⟩ := mem_map.1 member
      exact alone other isOther isUnder
    · intro member
      obtain ⟨other, isOther, isStart⟩ := mem_map.1 member
      exact unfolded other isOther isStart
  rw [map_append, collect_append, map_cons, folded, collect, if_neg fresh, again]
  simp

end Ordered

end Rustfs.Library.Paging
