import Rustfs.Ecstore.MergeUnion
import Rustfs.Ecstore.UnionOrder
import Mathlib.Data.List.Sigma
import Mathlib.Data.List.TakeWhile

/-!
# The merge is a sorted union

Whatever the order in which the producers and the merge act, the entries that a finished merge has
sent are in the strict order of their names, one for each name of the channels. Nothing is said of a
merge that does not finish.
-/

namespace Rustfs.Ecstore

open List Option Filemeta Library Library.SortedMerge Utils MergeState

def MergeChannel.rest (channel : MergeChannel) : List MetaCacheEntry := channel.queue ++ channel.unsent

def MergeState.restOf (state : MergeState) (idx : Nat) : List MetaCacheEntry :=
  (state.channels[idx]?.map MergeChannel.rest).getD []

/-- A producer that dropped its sender has sent everything. A channel that is closed early would
end the merge with entries missing. -/
def MergeState.Settled (state : MergeState) : Prop :=
  ∀ channel ∈ state.channels, channel.closed = true → channel.unsent = []

section Actions

variable {host : InfoHost} {state next : MergeState} {idx : Nat} {changed : MergeChannel}

/-- An action that the merge does not see: what the channels still hold is the same. Sending and
closing are such actions, at any time. -/
structure Unseen (state next : MergeState) : Prop where
  others : next = { state with channels := next.channels }
  size : next.channels.length = state.channels.length
  rests : ∀ idx, next.restOf idx = state.restOf idx
  settled : state.Settled → next.Settled

theorem rest_of_set {channel : MergeChannel} (here : state.channels[idx]? = some channel)
    (other : Nat) :
    ({ state with channels := state.channels.set idx changed } : MergeState).restOf other =
      if other = idx then changed.rest else state.restOf other := by
  have inside : idx < state.channels.length := (List.getElem?_eq_some_iff.1 here).1
  unfold restOf
  dsimp only
  rw [getElem?_set]
  by_cases same : idx = other
  · subst same
    rw [if_pos rfl, if_pos inside, if_pos rfl]
    rfl
  · rw [if_neg same, if_neg (Ne.symm same)]

theorem settled_set (settled : state.Settled) (kept : changed.closed = true → changed.unsent = []) :
    ({ state with channels := state.channels.set idx changed } : MergeState).Settled := by
  intro channel member
  rcases mem_or_eq_of_mem_set member with old | rfl
  · exact settled channel old
  · exact kept

theorem unseen_set {channel : MergeChannel} (here : state.channels[idx]? = some channel)
    (same : changed.rest = channel.rest)
    (kept : state.Settled → changed.closed = true → changed.unsent = []) :
    Unseen state { state with channels := state.channels.set idx changed } where
  others := rfl
  size := length_set
  rests := by
    intro other
    rw [rest_of_set here]
    split
    · rename_i isHere
      rw [isHere, same]
      unfold restOf
      rw [here]
      rfl
    · rfl
  settled := fun settled => settled_set settled (kept settled)

theorem send_unseen (sent : state.send idx = some next) : Unseen state next := by
  unfold send at sent
  split at sent
  · rename_i entry unsent queue closed here
    cases sent
    apply unseen_set here
    · simp [MergeChannel.rest]
    · intro settled isClosed
      have nothing := settled _ (mem_of_getElem? here) isClosed
      cases nothing
  · cases sent

theorem close_unseen (closed : state.close idx = some next) : Unseen state next := by
  unfold close at closed
  split at closed
  · rename_i queue was here
    cases closed
    exact unseen_set here rfl fun _ _ => rfl
  · cases closed

theorem poll_cases (settled : state.Settled) (polled : state.poll = some next) :
    ∃ idx polls, state.polls = idx :: polls ∧ next.Settled ∧
      next.channels.length = state.channels.length ∧
      ((∃ entry channels, (∀ other, ({ state with channels := channels } : MergeState).restOf other =
            if other = idx then (state.restOf idx).tail else state.restOf other) ∧
          state.restOf idx = entry :: (state.restOf idx).tail ∧
          next = if state.channels.length = 1 then
              { state with channels := channels, emitted := state.emitted ++ [entry] }
            else { state with
              channels := channels
              heap := pushHead state.heap (.new entry idx)
              polls := polls }) ∨
        (state.restOf idx = [] ∧
          next = if state.channels.length = 1 then { state with ended := some .finished }
            else { state with polls := polls })) := by
  unfold poll at polled
  split at polled
  · cases polled
  · rename_i idx polls isPolls
    refine ⟨idx, polls, isPolls, ?_⟩
    split at polled
    · rename_i unsent entry queue closed here
      have isRest : state.restOf idx = entry :: (queue ++ unsent) := by
        unfold restOf
        rw [here]
        rfl
      have changed : next.channels = state.channels.set idx ⟨unsent, queue, closed⟩ := by
        split at polled <;> cases polled <;> rfl
      have stillSettled : ({ state with channels := state.channels.set idx ⟨unsent, queue, closed⟩ } :
          MergeState).Settled :=
        settled_set settled fun isClosed =>
          settled ⟨unsent, entry :: queue, closed⟩ (mem_of_getElem? here) isClosed
      refine ⟨?_, by rw [changed, length_set], .inl ⟨entry,
        state.channels.set idx ⟨unsent, queue, closed⟩, ?_, ?_, ?_⟩⟩
      · unfold MergeState.Settled
        rw [changed]
        exact stillSettled
      · intro other
        rw [rest_of_set here, isRest]
        rfl
      · rw [isRest]
        rfl
      · dsimp only at polled
        split at polled
        · rename_i single
          rw [if_pos single]
          exact (Option.some.inj polled).symm
        · rename_i several
          rw [if_neg several]
          exact (Option.some.inj polled).symm
    · rename_i unsent here
      have nothing : unsent = [] := settled _ (mem_of_getElem? here) rfl
      have same : next.channels = state.channels := by
        split at polled <;> cases polled <;> rfl
      refine ⟨?_, by rw [same], .inr ⟨?_, ?_⟩⟩
      · unfold MergeState.Settled
        rw [same]
        exact settled
      · unfold restOf
        rw [here, nothing]
        rfl
      · split at polled
        · rename_i single
          rw [if_pos single]
          exact (Option.some.inj polled).symm
        · rename_i several
          rw [if_neg several]
          exact (Option.some.inj polled).symm
    · cases polled

end Actions

/-- Behind the last name, what is left of a channel is its head and what it still holds. -/
structure Merging (host : InfoHost) (inputs : List (List MetaCacheEntry)) (state : MergeState)
    (last : WithBot String) : Prop where
  size : state.channels.length = inputs.length
  settled : state.Settled
  ordered : state.heap.Pairwise fun one two => one.sortKey ≤ two.sortKey
  apart : (state.heap.map MergeHead.idx ++ state.polls).Nodup
  held : ∀ head ∈ state.heap, ∃ input, inputs[head.idx]? = some input ∧
    remainder MetaCacheEntry.name last input = head.entry :: state.restOf head.idx
  unheld : ∀ idx input, inputs[idx]? = some input → idx ∉ state.heap.map MergeHead.idx →
    remainder MetaCacheEntry.name last input = state.restOf idx
  drained : ∀ idx, idx ∉ state.heap.map MergeHead.idx → idx ∉ state.polls → state.restOf idx = []
  named : last = ⊥ ∧ state.lastEmitted = "" ∨ last = (state.lastEmitted : WithBot String)
  handed : Handed MetaCacheEntry.name inputs last (state.emitted.map MetaCacheEntry.name)
  stands : ∀ entry ∈ state.emitted, Stands host inputs entry
  finished : state.ended = some .finished → state.heap = [] ∧ state.polls = []

variable {entry : MetaCacheEntry} {action : MergeAction}

section Steps

variable {host : InfoHost} {inputs : List (List MetaCacheEntry)} {state next : MergeState}
  {last : WithBot String}

theorem merging_start (host : InfoHost) (inputs : List (List MetaCacheEntry)) :
    Merging host inputs (.start inputs) ⊥ where
  size := length_map _
  settled := by
    intro channel member closed
    obtain ⟨input, _, rfl⟩ := mem_map.1 member
    cases closed
  ordered := List.Pairwise.nil
  apart := nodup_range
  held := by
    intro head member
    cases member
  unheld := by
    intro idx input isInput _
    rw [remainder_start]
    unfold restOf start
    dsimp only
    rw [getElem?_map, isInput]
    rfl
  drained := by
    intro idx _ outside
    have beyond : inputs.length ≤ idx := by
      rw [start, mem_range] at outside
      exact not_lt.1 outside
    unfold restOf start
    dsimp only
    rw [getElem?_map, getElem?_eq_none beyond]
    rfl
  named := .inl ⟨rfl, rfl⟩
  handed := handed_start
  stands := by
    intro entry member
    cases member
  finished := by
    intro ended
    unfold start at ended ⊢
    dsimp only at ended ⊢
    split at ended
    · rename_i empty
      rw [List.isEmpty_iff.1 empty]
      exact ⟨rfl, rfl⟩
    · cases ended

theorem merging_unseen (merging : Merging host inputs state last) (unseen : Unseen state next) :
    Merging host inputs next last := by
  obtain ⟨others, size, rests, settled⟩ := unseen
  have heap : next.heap = state.heap := by rw [others]
  have polls : next.polls = state.polls := by rw [others]
  have emitted : next.emitted = state.emitted := by rw [others]
  have lastEmitted : next.lastEmitted = state.lastEmitted := by rw [others]
  have ended : next.ended = state.ended := by rw [others]
  refine ⟨size.trans merging.size, settled merging.settled, ?_, ?_, ?_, ?_, ?_, ?_, ?_, ?_, ?_⟩
  · rw [heap]
    exact merging.ordered
  · rw [heap, polls]
    exact merging.apart
  · rw [heap]
    intro head member
    rw [rests]
    exact merging.held head member
  · intro idx input isInput
    rw [heap, rests]
    exact merging.unheld idx input isInput
  · intro idx
    rw [heap, polls, rests]
    exact merging.drained idx
  · rw [lastEmitted]
    exact merging.named
  · rw [emitted]
    exact merging.handed
  · rw [emitted]
    exact merging.stands
  · rw [ended, heap, polls]
    exact merging.finished

theorem merging_ended (merging : Merging host inputs state last) {how : MergeEnd}
    (whole : how = .finished → state.heap = [] ∧ state.polls = []) :
    Merging host inputs { state with ended := some how } last :=
  { merging with finished := fun ended => whole (Option.some.inj ended) }

theorem new_canonical (canonical : Canonical entry.name) (idx : Nat) :
    MergeHead.new entry idx = ⟨entry, idx⟩ := by
  unfold MergeHead.new
  dsimp only
  split
  · rename_i differs
    rcases canonical with same | trailing
    · rw [same] at differs
      simp at differs
    · have ends : entry.name.toList.getLast? = some '/' := by
        rw [← trailing]
        simp
      rw [if_pos ends, trailing]
  · rfl

theorem merging_poll (canonical : ∀ input ∈ inputs, ∀ entry ∈ input, Canonical entry.name)
    (several : inputs.length ≠ 1) (merging : Merging host inputs state last)
    (running : state.ended = none) (polled : state.poll = some next) :
    Merging host inputs next last := by
  obtain ⟨idx, polls, isPolls, settled, size, received⟩ := poll_cases merging.settled polled
  have severalChannels : state.channels.length ≠ 1 := by
    rw [merging.size]
    exact several
  have apart := merging.apart
  rw [isPolls] at apart
  have notHeld : idx ∉ state.heap.map MergeHead.idx := fun member =>
    (nodup_append.1 apart).2.2 idx member idx mem_cons_self rfl
  rcases received with ⟨entry, channels, rests, isRest, isNext⟩ | ⟨isRest, isNext⟩
  · rw [if_neg severalChannels] at isNext
    obtain ⟨input, isInput⟩ : ∃ input, inputs[idx]? = some input := by
      have inside : idx < inputs.length := by
        by_contra outside
        have nothing : state.restOf idx = [] := by
          unfold restOf
          rw [getElem?_eq_none (by rw [merging.size]; exact not_lt.1 outside)]
          rfl
        rw [nothing] at isRest
        cases isRest
      exact ⟨_, getElem?_eq_getElem inside⟩
    have isLeft := merging.unheld idx input isInput notHeld
    have isHead : MergeHead.new entry idx = ⟨entry, idx⟩ := by
      apply new_canonical
      apply canonical input (mem_of_getElem? isInput)
      have member : entry ∈ remainder MetaCacheEntry.name last input := by
        rw [isLeft, isRest]
        exact mem_cons_self
      exact (mem_remainder.1 member).1
    rw [isHead] at isNext
    have inHeap : (pushHead state.heap ⟨entry, idx⟩).Perm (⟨entry, idx⟩ :: state.heap) :=
      perm_orderedInsert _ _ _
    have indices : ∀ other, other ∈ (pushHead state.heap ⟨entry, idx⟩).map MergeHead.idx ↔
        other = idx ∨ other ∈ state.heap.map MergeHead.idx := by
      intro other
      rw [(inHeap.map _).mem_iff, map_cons, mem_cons]
    have isRests : ∀ other, next.restOf other =
        if other = idx then (state.restOf idx).tail else state.restOf other := by
      intro other
      rw [← rests, isNext]
      rfl
    subst isNext
    refine ⟨size.trans merging.size, settled, ?_, ?_, ?_, ?_, ?_, merging.named, merging.handed,
      merging.stands, ?_⟩
    · have transitive : IsTrans MergeHead fun one two => one.sortKey ≤ two.sortKey :=
        ⟨fun _ _ _ => le_trans⟩
      exact merging.ordered.orderedInsert _ _
    · have moved : ((pushHead state.heap ⟨entry, idx⟩).map MergeHead.idx ++ polls).Perm
          (state.heap.map MergeHead.idx ++ idx :: polls) :=
        ((inHeap.map _).append_right polls).trans perm_middle.symm
      exact moved.nodup_iff.2 apart
    · intro head member
      rcases mem_cons.1 (inHeap.mem_iff.1 member) with rfl | old
      · refine ⟨input, isInput, ?_⟩
        rw [isRests, if_pos rfl, isLeft]
        exact isRest
      · have other : head.idx ≠ idx := fun same =>
          notHeld (mem_map.2 ⟨head, old, same⟩)
        rw [isRests, if_neg other]
        exact merging.held head old
    · intro other otherInput isOther outside
      rw [indices, not_or] at outside
      rw [isRests, if_neg outside.1]
      exact merging.unheld other otherInput isOther outside.2
    · intro other outside notPolled
      rw [indices, not_or] at outside
      rw [isRests, if_neg outside.1]
      apply merging.drained other outside.2
      rw [isPolls, mem_cons, not_or]
      exact ⟨outside.1, notPolled⟩
    · intro ended
      rw [running] at ended
      cases ended
  · rw [if_neg severalChannels] at isNext
    subst isNext
    refine { merging with apart := ?_, drained := ?_, finished := ?_ }
    · exact apart.sublist ((sublist_cons_self _ _).append_left _)
    · intro other outside notPolled
      by_cases same : other = idx
      · rw [same]
        exact isRest
      · apply merging.drained other outside
        rw [isPolls, mem_cons, not_or]
        exact ⟨same, notPolled⟩
    · intro ended
      rw [running] at ended
      cases ended

theorem name_le_of_sort_key {one two : MergeHead} (before : one.sortKey ≤ two.sortKey) :
    one.entry.name ≤ two.entry.name := by
  rcases Prod.Lex.toLex_le_toLex.1 before with less | ⟨same, _⟩
  · exact less.le
  · exact same.le

theorem later_heads {first : MergeHead} {rest : List MergeHead}
    (ordered : (first :: rest).Pairwise fun one two => one.sortKey ≤ two.sortKey) :
    ∀ head ∈ rest.dropWhile fun next => next.entry.name = first.entry.name,
      first.entry.name < head.entry.name := by
  induction rest with
  | nil =>
    intro head member
    cases member
  | cons second rest ih =>
    obtain ⟨above, restOrdered⟩ := pairwise_cons.1 ordered
    obtain ⟨secondAbove, others⟩ := pairwise_cons.1 restOrdered
    have notBefore := name_le_of_sort_key (above second mem_cons_self)
    intro head member
    by_cases same : second.entry.name = first.entry.name
    · rw [dropWhile_cons, if_pos (decide_eq_true same)] at member
      apply ih _ head member
      exact pairwise_cons.2 ⟨fun other isOther => above other (mem_cons_of_mem _ isOther), others⟩
    · have later : first.entry.name < second.entry.name := lt_of_le_of_ne notBefore (Ne.symm same)
      rw [dropWhile_cons, if_neg (by simp [same])] at member
      rcases mem_cons.1 member with rfl | inRest
      · exact later
      · exact later.trans_le (name_le_of_sort_key (secondAbove head inRest))

theorem same_head (merging : Merging host inputs state last) {one two : MergeHead}
    (isOne : one ∈ state.heap) (isTwo : two ∈ state.heap) (same : one.idx = two.idx) : one = two :=
  inj_on_of_nodup_map (nodup_append.1 merging.apart).1 isOne isTwo same

/-- Where no head is waited for and the least name is known, a channel has a head of that name, or
nothing of that name is left in it. -/
theorem stream_at_least {name : String} (merging : Merging host inputs state last)
    (increasing : ∀ input ∈ inputs, Increasing MetaCacheEntry.name input)
    (polled : state.polls = []) (later : last < (name : WithBot String))
    (least : ∀ head ∈ state.heap, name ≤ head.entry.name) {idx : Nat} {input : List MetaCacheEntry}
    (isInput : inputs[idx]? = some input) :
    (∀ entry ∈ remainder MetaCacheEntry.name last input, name ≤ entry.name) ∧
      ((∃ head ∈ state.heap, head.idx = idx ∧ head.entry.name = name ∧
          entryFor MetaCacheEntry.name name input = some head.entry ∧
          remainder MetaCacheEntry.name name input = state.restOf idx) ∨
        ((∀ head ∈ state.heap, head.idx = idx → name < head.entry.name) ∧
          entryFor MetaCacheEntry.name name input = none ∧
          remainder MetaCacheEntry.name name input = remainder MetaCacheEntry.name last input)) := by
  have inputIncreasing := increasing input (mem_of_getElem? isInput)
  have ordered : Increasing MetaCacheEntry.name (remainder MetaCacheEntry.name last input) :=
    remainder_increasing inputIncreasing
  by_cases isHeld : idx ∈ state.heap.map MergeHead.idx
  · obtain ⟨head, isHead, rfl⟩ := mem_map.1 isHeld
    obtain ⟨_, isOther, isLeft⟩ := merging.held head isHead
    rw [isInput] at isOther
    cases isOther
    have above : ∀ entry ∈ remainder MetaCacheEntry.name last input, name ≤ entry.name := by
      rw [isLeft] at ordered ⊢
      intro entry member
      rcases mem_cons.1 member with rfl | inRest
      · exact least head isHead
      · exact (least head isHead).trans ((pairwise_cons.1 ordered).1 entry inRest).le
    refine ⟨above, ?_⟩
    rcases next_cases inputIncreasing later above with
      ⟨entry, rest, isNext, isName, found, remains⟩ | ⟨all, missing, remains⟩
    · rw [isLeft] at isNext
      cases isNext
      exact .inl ⟨head, isHead, rfl, isName, found, remains⟩
    · refine .inr ⟨?_, missing, remains⟩
      intro other isOther same
      rw [same_head merging isOther isHead same]
      apply all
      rw [isLeft]
      exact mem_cons_self
  · have isLeft : remainder MetaCacheEntry.name last input = [] := by
      rw [merging.unheld idx input isInput isHeld]
      apply merging.drained idx isHeld
      rw [polled]
      exact not_mem_nil
    have above : ∀ entry ∈ remainder MetaCacheEntry.name last input, name ≤ entry.name := by
      rw [isLeft]
      simp
    refine ⟨above, .inr ⟨?_, ?_⟩⟩
    · intro head isHead same
      exact absurd (mem_map.2 ⟨head, isHead, same⟩) isHeld
    · rcases next_cases inputIncreasing later above with
        ⟨entry, rest, isNext, _⟩ | ⟨_, missing, remains⟩
      · rw [isLeft] at isNext
        cases isNext
      · exact ⟨missing, remains⟩

theorem group_whole {name : String} {group : List MergeHead} (merging : Merging host inputs state last)
    (increasing : ∀ input ∈ inputs, Increasing MetaCacheEntry.name input)
    (polled : state.polls = []) (later : last < (name : WithBot String))
    (least : ∀ head ∈ state.heap, name ≤ head.entry.name) (within : group.Sublist state.heap)
    (isGroup : ∀ head ∈ state.heap, head ∈ group ↔ head.entry.name = name) :
    (group.map MergeHead.entry).Perm (inputs.filterMap (entryFor MetaCacheEntry.name name)) := by
  let carriers : List MergeHead := inputs.zipIdx.filterMap fun numbered =>
    (entryFor MetaCacheEntry.name name numbered.1).map fun entry => ⟨entry, numbered.2⟩
  have isCarrier : ∀ head, head ∈ carriers ↔ ∃ input, inputs[head.idx]? = some input ∧
      entryFor MetaCacheEntry.name name input = some head.entry := by
    intro head
    rw [mem_filterMap]
    constructor
    · rintro ⟨⟨input, idx⟩, member, found⟩
      obtain ⟨entry, isEntry, rfl⟩ := map_eq_some_iff.1 found
      exact ⟨input, mk_mem_zipIdx_iff_getElem?.1 member, isEntry⟩
    · rintro ⟨input, isInput, found⟩
      refine ⟨(input, head.idx), mk_mem_zipIdx_iff_getElem?.2 isInput, ?_⟩
      rw [found]
      rfl
  have carriersOnce : carriers.Nodup := by
    have numbers : inputs.zipIdx.Pairwise fun one two => one.2 ≠ two.2 :=
      pairwise_map.1 (nodup_zipIdx_map_snd inputs)
    apply pairwise_filterMap.2 (numbers.imp _)
    intro one two different head isHead other isOther same
    obtain ⟨_, _, rfl⟩ := map_eq_some_iff.1 isHead
    obtain ⟨_, _, rfl⟩ := map_eq_some_iff.1 isOther
    exact different (congrArg MergeHead.idx same)
  have groupOnce : group.Nodup :=
    (List.Nodup.of_map _ (nodup_append.1 merging.apart).1).sublist within
  have same : group.Perm carriers := by
    rw [perm_ext_iff_of_nodup groupOnce carriersOnce]
    intro head
    rw [isCarrier]
    constructor
    · intro member
      have isHead := within.subset member
      obtain ⟨input, isInput, _⟩ := merging.held head isHead
      refine ⟨input, isInput, ?_⟩
      rcases (stream_at_least merging increasing polled later least isInput).2 with
        ⟨other, isOther, sameIdx, _, found, _⟩ | ⟨above, _, _⟩
      · rw [found, same_head merging isOther isHead sameIdx]
      · have isName := (isGroup head isHead).1 member
        exact absurd isName (above head isHead rfl).ne'
    · rintro ⟨input, isInput, found⟩
      rcases (stream_at_least merging increasing polled later least isInput).2 with
        ⟨other, isOther, sameIdx, isName, isFound, _⟩ | ⟨_, missing, _⟩
      · rw [isFound] at found
        have isHead : other = head := by
          cases other
          cases head
          cases found
          cases sameIdx
          rfl
        rw [← isHead]
        exact (isGroup other isOther).2 isName
      · rw [missing] at found
        cases found
  have entries : carriers.map MergeHead.entry =
      inputs.filterMap (entryFor MetaCacheEntry.name name) := by
    rw [map_filterMap]
    conv_rhs => rw [← zipIdx_map_fst 0 inputs, filterMap_map]
    congr 1
    funext numbered
    rw [Option.map_map]
    exact Option.map_id'
  rw [← entries]
  exact same.map _

/-- What an emission does: the merge is done, the versions of the group cannot be merged, or the
heads of the least name are taken. -/
theorem emit_cases (emitted : state.emit host = some next) :
    state.polls = [] ∧
      ((state.heap = [] ∧ next = { state with ended := some .finished }) ∨
        ∃ first rest group later, state.heap = first :: rest ∧ group ++ later = first :: rest ∧
          group ≠ [] ∧ (∀ head ∈ group, head.entry.name = first.entry.name) ∧
          later = (rest.dropWhile fun next => next.entry.name = first.entry.name) ∧
          (next = { state with ended := some .failed } ∨
            ∃ result, resolveGroup host (group.map MergeHead.entry) = some result ∧
              next = match result with
                | some winner =>
                  if winner.name = state.lastEmitted then
                    { state with heap := later, polls := group.map MergeHead.idx }
                  else { state with
                    heap := later
                    polls := group.map MergeHead.idx
                    lastEmitted := winner.name
                    emitted := state.emitted ++ [winner] }
                | none => { state with heap := later, polls := group.map MergeHead.idx })) := by
  unfold emit at emitted
  split at emitted
  · cases emitted
  · rename_i polled
    rw [Bool.not_eq_true, Bool.not_eq_false', List.isEmpty_iff] at polled
    refine ⟨polled, ?_⟩
    cases isHeap : state.heap with
    | nil =>
      rw [isHeap] at emitted
      exact .inl ⟨rfl, (Option.some.inj emitted).symm⟩
    | cons first rest =>
      rw [isHeap] at emitted
      refine .inr ⟨first, rest, first :: rest.takeWhile fun next => next.entry.name = first.entry.name,
        rest.dropWhile fun next => next.entry.name = first.entry.name, rfl, ?_, by simp, ?_, rfl, ?_⟩
      · rw [cons_append, takeWhile_append_dropWhile]
      · intro head member
        rcases mem_cons.1 member with rfl | inRest
        · rfl
        · have same := mem_takeWhile_imp inRest
          exact of_decide_eq_true same
      · dsimp only at emitted
        split at emitted
        · exact .inl (Option.some.inj emitted).symm
        · rename_i resolved
          exact .inr ⟨none, resolved, (Option.some.inj emitted).symm⟩
        · rename_i winner resolved
          refine .inr ⟨some winner, resolved, ?_⟩
          dsimp only
          split at emitted
          · rename_i again
            rw [if_pos again]
            exact (Option.some.inj emitted).symm
          · rename_i new
            rw [if_neg new]
            exact (Option.some.inj emitted).symm

section

variable (canonical : ∀ input ∈ inputs, ∀ entry ∈ input, Canonical entry.name)
  (increasing : ∀ input ∈ inputs, Increasing MetaCacheEntry.name input)

include canonical increasing

theorem merging_emit (merging : Merging host inputs state last) (running : state.ended = none)
    (emitted : state.emit host = some next) : ∃ last, Merging host inputs next last := by
  obtain ⟨polled, ⟨empty, rfl⟩ | ⟨first, rest, group, later, isHeap, split, filled, groupNamed, isLater, how⟩⟩ :=
    emit_cases emitted
  · exact ⟨last, merging_ended merging fun _ => ⟨empty, polled⟩⟩
  have heapSplit : state.heap = group ++ later := isHeap.trans split.symm
  have ordered := merging.ordered
  rw [isHeap] at ordered
  have laterNames : ∀ head ∈ later, first.entry.name < head.entry.name := by
    rw [isLater]
    exact later_heads ordered
  have isFirst : first ∈ state.heap := by
    rw [isHeap]
    exact mem_cons_self
  obtain ⟨firstInput, isFirstInput, firstLeft⟩ := merging.held first isFirst
  have firstMember : first.entry ∈ remainder MetaCacheEntry.name last firstInput := by
    rw [firstLeft]
    exact mem_cons_self
  obtain ⟨inFirst, after⟩ := mem_remainder.1 firstMember
  have least : ∀ head ∈ state.heap, first.entry.name ≤ head.entry.name := by
    rw [heapSplit]
    intro head member
    rcases mem_append.1 member with inGroup | inLater
    · exact (groupNamed head inGroup).ge
    · exact (laterNames head inLater).le
  have isGroup : ∀ head ∈ state.heap, head ∈ group ↔ head.entry.name = first.entry.name := by
    intro head member
    refine ⟨groupNamed head, fun same => ?_⟩
    rw [heapSplit] at member
    rcases mem_append.1 member with inGroup | inLater
    · exact inGroup
    · exact absurd same (laterNames head inLater).ne'
  have streams := fun {idx : Nat} {input : List MetaCacheEntry} =>
    @stream_at_least _ _ _ _ _ merging increasing polled after least idx input
  have whole := group_whole merging increasing polled after least
    (by rw [heapSplit]; exact sublist_append_left _ _) isGroup
  rcases how with rfl | ⟨result, resolved, isNext⟩
  · exact ⟨last, merging_ended merging fun impossible => by cases impossible⟩
  obtain ⟨winner, rfl, winnerName, winnerStands⟩ := resolved_stands (by simpa using filled)
    (by
      intro entry member
      obtain ⟨head, isHead, rfl⟩ := mem_map.1 member
      exact groupNamed head isHead) whole resolved
  have new : ¬ winner.name = state.lastEmitted := by
    rw [winnerName]
    rcases merging.named with ⟨_, isEmpty⟩ | isLast
    · rw [isEmpty]
      exact canonical_not_empty (canonical firstInput (mem_of_getElem? isFirstInput) _ inFirst)
    · rw [isLast] at after
      exact (WithBot.coe_lt_coe.1 after).ne'
  dsimp only at isNext
  rw [if_neg new] at isNext
  subst isNext
  have indices : state.heap.map MergeHead.idx = group.map MergeHead.idx ++ later.map MergeHead.idx := by
    rw [heapSplit, map_append]
  have outside : ∀ idx, idx ∉ later.map MergeHead.idx → idx ∉ group.map MergeHead.idx →
      idx ∉ state.heap.map MergeHead.idx := by
    intro idx notLater notGroup
    rw [indices, mem_append, not_or]
    exact ⟨notGroup, notLater⟩
  refine ⟨first.entry.name, merging.size, merging.settled, ?_, ?_, ?_, ?_, ?_, ?_, ?_, ?_, ?_⟩
  · have sorted := merging.ordered
    rw [heapSplit] at sorted
    exact (pairwise_append.1 sorted).2.1
  · have once := merging.apart
    rw [polled, append_nil, indices] at once
    exact perm_append_comm.nodup_iff.1 once
  · intro head member
    have isHead : head ∈ state.heap := by
      rw [heapSplit]
      exact mem_append_right _ member
    obtain ⟨input, isInput, isLeft⟩ := merging.held head isHead
    refine ⟨input, isInput, ?_⟩
    rcases (streams isInput).2 with ⟨other, isOther, sameIdx, sameName, _⟩ | ⟨_, _, remains⟩
    · rw [same_head merging isOther isHead sameIdx] at sameName
      exact absurd sameName (laterNames head member).ne'
    · rw [remains]
      exact isLeft
  · intro idx input isInput notLater
    rcases (streams isInput).2 with ⟨head, isHead, sameIdx, sameName, _, remains⟩ | ⟨above, _, remains⟩
    · exact remains
    · rw [remains]
      apply merging.unheld idx input isInput
      apply outside idx notLater
      intro inGroup
      obtain ⟨head, isHead, sameIdx⟩ := mem_map.1 inGroup
      have inHeap : head ∈ state.heap := by
        rw [heapSplit]
        exact mem_append_left _ isHead
      exact absurd (groupNamed head isHead) (above head inHeap sameIdx).ne'
  · intro idx notLater notGroup
    apply merging.drained idx (outside idx notLater notGroup)
    rw [polled]
    exact not_mem_nil
  · right
    rw [winnerName]
  · rw [map_append, map_singleton, winnerName]
    refine handed_next merging.handed after ⟨firstInput, mem_of_getElem? isFirstInput, _, inFirst, rfl⟩ ?_
    intro input isInput
    obtain ⟨idx, isIdx⟩ := mem_iff_getElem?.1 isInput
    exact (streams isIdx).1
  · intro entry member
    rcases mem_append.1 member with old | isWinner
    · exact merging.stands entry old
    · rw [mem_singleton.1 isWinner]
      exact winnerStands
  · intro ended
    rw [running] at ended
    cases ended

theorem merging_step (several : inputs.length ≠ 1) (merging : Merging host inputs state last)
    (stepped : state.step host action = some next) : ∃ last, Merging host inputs next last := by
  cases action with
  | send idx => exact ⟨last, merging_unseen merging (send_unseen stepped)⟩
  | close idx => exact ⟨last, merging_unseen merging (close_unseen stepped)⟩
  | poll =>
    rw [step] at stepped
    split at stepped
    · cases stepped
    · rename_i running
      rw [not_isSome_iff_eq_none] at running
      exact ⟨last, merging_poll canonical several merging running stepped⟩
  | emit =>
    rw [step] at stepped
    split at stepped
    · cases stepped
    · rename_i running
      rw [not_isSome_iff_eq_none] at running
      exact merging_emit canonical increasing merging running stepped
  | stop =>
    rw [step] at stepped
    split at stepped
    · cases stepped
    · cases stepped
      exact ⟨last, merging_ended merging fun impossible => by cases impossible⟩

end

end Steps

/-- What was sent on and what the channel still holds are its entries. -/
structure Passing (input : List MetaCacheEntry) (state : MergeState) : Prop where
  size : state.channels.length = 1
  settled : state.Settled
  polls : state.polls = [0]
  whole : state.emitted ++ state.restOf 0 = input
  finished : state.ended = some .finished → state.restOf 0 = []

section Single

variable {host : InfoHost} {input : List MetaCacheEntry} {state next : MergeState}

theorem passing_start (input : List MetaCacheEntry) : Passing input (.start [input]) where
  size := rfl
  settled := by
    intro channel member closed
    rw [start, map_singleton, mem_singleton] at member
    rw [member] at closed
    cases closed
  polls := rfl
  whole := rfl
  finished := by
    intro ended
    cases ended

theorem passing_unseen (passing : Passing input state) (unseen : Unseen state next) :
    Passing input next := by
  obtain ⟨others, size, rests, settled⟩ := unseen
  have polls : next.polls = state.polls := by rw [others]
  have emitted : next.emitted = state.emitted := by rw [others]
  have ended : next.ended = state.ended := by rw [others]
  refine ⟨size.trans passing.size, settled passing.settled, polls.trans passing.polls, ?_, ?_⟩
  · rw [emitted, rests]
    exact passing.whole
  · rw [ended, rests]
    exact passing.finished

theorem passing_poll (passing : Passing input state) (running : state.ended = none)
    (polled : state.poll = some next) : Passing input next := by
  obtain ⟨idx, polls, isPolls, settled, size, received⟩ := poll_cases passing.settled polled
  obtain ⟨rfl, rfl⟩ := List.cons.inj (isPolls.symm.trans passing.polls)
  rw [passing.size] at size received
  rcases received with ⟨entry, channels, rests, isRest, isNext⟩ | ⟨isRest, isNext⟩
  · rw [if_pos rfl] at isNext
    have remains : next.restOf 0 = (state.restOf 0).tail := by
      have here := rests 0
      rw [if_pos rfl] at here
      rw [← here, isNext]
      rfl
    have sent : next.emitted = state.emitted ++ [entry] := by rw [isNext]
    refine ⟨size, settled, by rw [isNext]; exact passing.polls, ?_, ?_⟩
    · rw [sent, remains, ← passing.whole, isRest]
      simp
    · intro ended
      rw [isNext] at ended
      rw [running] at ended
      cases ended
  · subst isNext
    exact { passing with finished := fun _ => isRest }

theorem passing_step (passing : Passing input state)
    (stepped : state.step host action = some next) : Passing input next := by
  cases action with
  | send idx => exact passing_unseen passing (send_unseen stepped)
  | close idx => exact passing_unseen passing (close_unseen stepped)
  | poll =>
    rw [step] at stepped
    split at stepped
    · cases stepped
    · rename_i running
      rw [not_isSome_iff_eq_none] at running
      exact passing_poll passing running stepped
  | emit =>
    rw [step] at stepped
    split at stepped
    · cases stepped
    · obtain ⟨noPolls, _⟩ := emit_cases stepped
      rw [passing.polls] at noPolls
      cases noPolls
  | stop =>
    rw [step] at stepped
    split at stepped
    · cases stepped
    · cases stepped
      exact { passing with finished := fun impossible => by cases impossible }

theorem objects_named_single (increasing : Increasing MetaCacheEntry.name input)
    (member : entry ∈ input) :
    objectsNamed [input] entry.name = if entry.isObject then [entry] else [] := by
  unfold objectsNamed
  rw [filterMap_cons, entry_for_member increasing member]
  cases isObject : entry.isObject <;> simp [isObject]

theorem single_stands (increasing : Increasing MetaCacheEntry.name input)
    (member : entry ∈ input) : Stands host [input] entry where
  object := by
    rw [objects_named_single increasing member]
    cases entry.isObject <;> simp
  union := by
    intro isObject
    rw [objects_named_single increasing member, isObject, if_pos rfl]
    unfold UnionOf
    intro identity
    simp

end Single

section Runs

variable {host : InfoHost} {inputs : List (List MetaCacheEntry)} {actions : List MergeAction}
  {final : MergeState}

theorem run_keeps {P : MergeState → Prop}
    (step : ∀ state action next, P state → state.step host action = some next → P next) :
    ∀ (actions : List MergeAction) (state final : MergeState), P state →
      actions.foldlM (MergeState.step host) state = some final → P final := by
  intro actions
  induction actions with
  | nil =>
    intro state final holds run
    cases run
    exact holds
  | cons action rest ih =>
    intro state final holds run
    obtain ⟨next, stepped, run⟩ := bind_eq_some_iff.1 run
    exact ih next final (step state action next holds stepped) run

/-- A merge that finished has sent one entry for each name, in order; an entry stands for the
objects of its name. Directories of a name give way to its objects. -/
theorem merge_is_sorted_union (increasing : ∀ input ∈ inputs, Increasing MetaCacheEntry.name input)
    (canonical : ∀ input ∈ inputs, ∀ entry ∈ input, Canonical entry.name)
    (run : mergeEntryChannels host inputs actions = some final)
    (finished : final.ended = some .finished) :
    (final.emitted.map MetaCacheEntry.name).Pairwise (· < ·) ∧
      (∀ name, name ∈ final.emitted.map MetaCacheEntry.name ↔ Carries MetaCacheEntry.name inputs name) ∧
      ∀ entry ∈ final.emitted,
        (objectsNamed inputs entry.name ≠ [] → entry.isObject = true) ∧
        (entry.isObject = true → UnionOf host (objectsNamed inputs entry.name) entry) := by
  by_cases single : inputs.length = 1
  · obtain ⟨input, rfl⟩ := length_eq_one_iff.1 single
    have passing := run_keeps (fun _ _ _ passing stepped => passing_step passing stepped) actions _ final
      (passing_start input) run
    have isInput : final.emitted = input := by
      have whole := passing.whole
      rw [passing.finished finished, append_nil] at whole
      exact whole
    have inputIncreasing := increasing input mem_cons_self
    rw [isInput]
    refine ⟨pairwise_map.2 inputIncreasing, ?_, ?_⟩
    · intro name
      unfold Carries
      simp
    · intro entry member
      have stands : Stands host [input] entry := single_stands inputIncreasing member
      exact ⟨stands.object, stands.union⟩
  · obtain ⟨last, merging⟩ := run_keeps (P := fun state => ∃ last, Merging host inputs state last)
      (fun state action next merging stepped =>
        merging_step canonical increasing single merging.choose_spec stepped)
      actions _ final ⟨⊥, merging_start host inputs⟩ run
    obtain ⟨noHeads, noPolls⟩ := merging.finished finished
    refine ⟨merging.handed.increasing, handed_all merging.handed ?_,
      fun entry member => ⟨(merging.stands entry member).object, (merging.stands entry member).union⟩⟩
    intro input isInput
    obtain ⟨idx, isIdx⟩ := mem_iff_getElem?.1 isInput
    have unheld : idx ∉ final.heap.map MergeHead.idx := by
      rw [noHeads]
      exact not_mem_nil
    rw [merging.unheld idx input isIdx unheld]
    apply merging.drained idx unheld
    rw [noPolls]
    exact not_mem_nil

end Runs

def folderEntry : MetaCacheEntry := ⟨"logs/", [], none, false⟩

def copiedInputs : List (List MetaCacheEntry) := [[folderEntry, plainEntry 0], [plainEntry 1]]

def copiedActions : List MergeAction :=
  [.send 0, .poll, .send 0, .send 1, .close 1, .poll, .emit, .poll, .close 0, .emit, .poll, .poll, .emit]

theorem copied_inputs_merged :
    ∃ final, mergeEntryChannels .sample copiedInputs copiedActions = some final ∧
      final.ended = some .finished ∧
      (∀ name, name ∈ final.emitted.map MetaCacheEntry.name ↔
        Carries MetaCacheEntry.name copiedInputs name) ∧
      ∀ entry ∈ final.emitted, entry.isObject = true →
        UnionOf .sample (objectsNamed copiedInputs entry.name) entry := by
  have ran : (mergeEntryChannels .sample copiedInputs copiedActions).map MergeState.ended =
      some (some .finished) := by decide +kernel
  obtain ⟨final, run, finished⟩ := map_eq_some_iff.1 ran
  obtain ⟨_, names, stands⟩ := merge_is_sorted_union (by decide +kernel) (by decide +kernel) run finished
  exact ⟨final, run, finished, names, fun entry member => (stands entry member).2⟩

def warmDestination : String := String.ofList (List.replicate 64 '0')

def remoteKeys : SysMetadata :=
  (KeyMap.empty.insert "x-rustfs-internal-transition-status" (utf8 transitionComplete)).insert
    "x-rustfs-internal-transition-tier-destination-id" (utf8 warmDestination)

/-- The metadata of the cleanup record of the same remote object. -/
def cleanupKeys : SysMetadata :=
  (KeyMap.empty.insert "x-rustfs-internal-free-version" []).insert
    "x-rustfs-internal-transition-tier-destination-id" (utf8 warmDestination)

def writtenAt : Option OffsetDateTime := OffsetDateTime.fromUnixTimestampNanos 1700000000000000000

def ownerBody : FileMetaVersion :=
  .ofObject
    { MetaObject.default with
      versionId := some 5
      erasureAlgorithm := .reedSolomon
      bitrotChecksumAlgo := .highwayHash
      modTime := writtenAt
      metaSys := remoteKeys }

def cleanupBody : FileMetaVersion := .ofMarker ⟨some 6, writtenAt, cleanupKeys⟩

def ownerVersion : FileMetaShallowVersion := ownerBody.toShallow .sample

def cleanupVersion : FileMetaShallowVersion := cleanupBody.toShallow .sample

def ownedMeta : FileMeta := { FileMeta.default with versions := [ownerVersion, cleanupVersion] }

def ownedEntry : MetaCacheEntry where
  name := "report.csv"
  metadata := ownedMeta.marshalMsg InfoHost.sample.hash
  cached := some ownedMeta
  reusable := true

def ownerInfo : FileInfo :=
  { FileInfo.default with
    name := "report.csv"
    versionId := some 5
    transitionStatus := transitionComplete
    modTime := writtenAt
    metadata := (KeyMap.empty.insert "x-rustfs-internal-transition-status" transitionComplete).insert
      "x-rustfs-internal-transition-tier-destination-id" warmDestination
    erasure := (MetaObject.erasureInfo { MetaObject.default with erasureAlgorithm := .reedSolomon }) }

def cleanupInfo : FileInfo :=
  { FileInfo.default with
    name := "report.csv"
    versionId := some 6
    deleted := true
    modTime := writtenAt
    metadata := insertStr ((KeyMap.empty.insert "x-rustfs-internal-free-version" "").insert
      "x-rustfs-internal-transition-tier-destination-id" warmDestination) suffixTierFvMarker "" }

/-- What is compared of the remote objects. -/
structure RemoteTuple where
  tier : String
  name : String
  destination : Option (Option (List Nat))
  state : TransitionVersionState
  versionId : String
  stateMissing : Option Bool
  deriving DecidableEq

def remoteTuple (info : ObjectInfo) : RemoteTuple where
  tier := info.transitionedObject.tier
  name := info.transitionedObject.name
  destination := DataMovement.tierDestinationId .sample info.userDefined
  state := info.transitionVersionState
  versionId := info.transitionedObject.versionId
  stateMissing := DataMovement.legacyTransitionVersionStateMissing .sample info

def warmTuple : RemoteTuple := ⟨"", "", some (some (List.replicate 32 0)), .unknown, "", some true⟩

theorem warm_tuples_match {one two : ObjectInfo} (isOne : remoteTuple one = warmTuple)
    (isTwo : remoteTuple two = warmTuple) :
    DataMovement.freeVersionRemoteTupleMatches .sample one two = true := by
  unfold remoteTuple warmTuple at isOne isTwo
  rw [RemoteTuple.mk.injEq] at isOne isTwo
  unfold DataMovement.freeVersionRemoteTupleMatches
  simp [isOne, isTwo]

def ownedActions : List MergeAction :=
  [.send 0, .close 0, .close 1, .poll, .poll, .emit, .poll, .emit]

structure ReadAs (version : FileMetaShallowVersion) (body : FileMetaVersion) (fi : FileInfo) : Prop where
  parsed : version.parseVersionMeta .sample = .ok body
  info : body.intoFileinfo .sample "" "report.csv" true = .ok fi
  header : body.valid = true ∧ body.versionType = version.header.versionType ∧
    fi.modTime = version.header.modTime ∧ fi.versionId = version.header.versionId ∧
    fi.tierFreeVersion = version.header.freeVersion
  tuple : remoteTuple (.fromFileInfo .sample fi) = warmTuple

theorem owned_reads :
    ReadAs ownerVersion ownerBody ownerInfo ∧ ReadAs cleanupVersion cleanupBody cleanupInfo ∧
      (mergeEntryChannels .sample [[ownedEntry], []] ownedActions).map (fun final =>
        (final.ended, (final.emitted.find? fun entry => entry.name = "report.csv" &&
          (some 6, true) ∈ identitiesOf .sample entry).isSome)) = some (some .finished, true) ∧
      (∀ input ∈ [[ownedEntry], []], Increasing MetaCacheEntry.name input) ∧
      ∀ input ∈ [[ownedEntry], []], ∀ entry ∈ input, Canonical entry.name where
  left :=
    { parsed := by decide +kernel
      info := by decide +kernel
      header := by decide +kernel
      tuple := by decide +kernel }
  right :=
    ⟨{ parsed := by decide +kernel
       info := by decide +kernel
       header := by decide +kernel
       tuple := by decide +kernel },
      by decide +kernel, by decide +kernel, by decide +kernel⟩

theorem ReadAs.copy {version : FileMetaShallowVersion} {body : FileMetaVersion} {fi : FileInfo}
    (readAs : ReadAs version body fi) : readCopy .sample "report.csv" version =
      some ((fi.versionId.filter fun id => !id.isNil, fi.tierFreeVersion),
        ⟨version, .fromFileInfo .sample fi⟩) := by
  obtain ⟨valid, sameType, sameTime, sameId, sameFlag⟩ := readAs.header
  unfold readCopy
  rw [show version.parseVersionMeta InfoHost.sample.toRuntime = .ok body from readAs.parsed]
  dsimp only
  rw [show body.intoFileinfo InfoHost.sample.toRuntime "" "report.csv" true = .ok fi from readAs.info]
  simp [valid, sameType, sameTime, sameId, sameFlag]

theorem owner_read : ∃ owner, readCopy .sample "report.csv" ownerVersion = some owner ∧
    ownsRemote owner.2.info = true ∧ remoteTuple owner.2.info = warmTuple := by
  refine ⟨_, owned_reads.1.copy, ?_, owned_reads.1.tuple⟩
  rfl

theorem cleanup_read : ∃ cleanup, readCopy .sample "report.csv" cleanupVersion = some cleanup ∧
    cleanup.1 = (some 6, true) ∧ cleanup.2.info.transitionedObject.freeVersion = true ∧
      remoteTuple cleanup.2.info = warmTuple := by
  have isFree : cleanupInfo.tierFreeVersion = true := owned_reads.2.1.header.2.2.2.2
  refine ⟨_, owned_reads.2.1.copy, ?_, isFree, owned_reads.2.1.tuple⟩
  rfl

theorem owned_objects : objectsNamed [[ownedEntry], []] "report.csv" = [ownedEntry] := by
  have isObject : ownedEntry.isObject = true := by
    unfold MetaCacheEntry.isObject
    rw [Bool.not_eq_true', isEmpty_eq_false_iff]
    exact marshal_not_empty _ _
  have found : entryFor MetaCacheEntry.name "report.csv" [ownedEntry] = some ownedEntry :=
    find?_cons_of_pos rfl
  have missing : entryFor MetaCacheEntry.name "report.csv" ([] : List MetaCacheEntry) = none := rfl
  unfold objectsNamed
  simp [found, missing, isObject]

/-- The versions of an object that one channel alone carries are sent as they are, with a free
version whose remote object a live version of the same object owns. -/
theorem owned_free_version_is_sent :
    ¬ ∀ (host : InfoHost) (inputs : List (List MetaCacheEntry)) (actions : List MergeAction)
        (final : MergeState),
      (∀ input ∈ inputs, Increasing MetaCacheEntry.name input) →
      (∀ input ∈ inputs, ∀ entry ∈ input, Canonical entry.name) →
      mergeEntryChannels host inputs actions = some final → final.ended = some .finished →
      ∀ entry ∈ final.emitted, ∀ copy ∈ copiesOf host entry.name (objectsNamed inputs entry.name),
        isSuperseded host (copiesOf host entry.name (objectsNamed inputs entry.name)) copy.2.info = true →
        copy.1 ∉ identitiesOf host entry := by
  intro claim
  obtain ⟨_, _, ran, increasing, canonical⟩ := owned_reads
  obtain ⟨final, run, outcome⟩ := map_eq_some_iff.1 ran
  have ended : final.ended = some .finished := congrArg Prod.fst outcome
  obtain ⟨entry, isEntry⟩ := isSome_iff_exists.1 (congrArg Prod.snd outcome)
  have holds := find?_some isEntry
  rw [Bool.and_eq_true, decide_eq_true_eq, decide_eq_true_eq] at holds
  have gone := claim .sample _ _ final increasing canonical run ended entry
    (mem_of_find?_eq_some isEntry)
  obtain ⟨owner, ownerRead, owns, ownerTuple⟩ := owner_read
  obtain ⟨cleanup, cleanupRead, isFree, flagged, cleanupTuple⟩ := cleanup_read
  have copies : copiesOf .sample "report.csv" [ownedEntry] = [owner, cleanup] := by
    have read : readEntry .sample "report.csv" ownedEntry = some [owner, cleanup] := by
      change [ownerVersion, cleanupVersion].mapM (readCopy .sample "report.csv") = _
      rw [mapM_cons, mapM_cons, ownerRead, cleanupRead]
      rfl
    unfold copiesOf
    rw [flatMap_singleton, read]
    rfl
  rw [holds.1, owned_objects, copies] at gone
  have superseded : isSuperseded .sample [owner, cleanup] cleanup.2.info = true := by
    unfold isSuperseded
    simp [flagged, owns, warm_tuples_match cleanupTuple ownerTuple]
  apply gone cleanup (by simp) superseded
  rw [isFree]
  exact holds.2

end Rustfs.Ecstore
