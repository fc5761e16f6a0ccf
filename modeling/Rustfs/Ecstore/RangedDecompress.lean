import Rustfs.Rio.EncryptReader
import Mathlib.Data.List.Infix

/-!
# Ranged reads of a decompressed stream

`RangedDecompressReader` of `object_api/readers.rs` skips to the offset and hands out the bytes of
the range. An inner stream that ends behind the offset ends the range without an error. The task
that drains the inner stream afterwards is only handed the reader.
-/

namespace Rustfs.Ecstore

open List Rio
open Library.ByteReader (Bytes)

/-- `hasInner` is lost to the task that drains the inner reader. -/
structure RangedDecompressReader where
  hasInner : Bool
  targetOffset : Nat
  targetLength : Nat
  currentOffset : Nat
  bytesReturned : Nat
  drainOnDone : Bool

namespace RangedDecompressReader

def newWithDrain (offset : Nat) (length : Int64) (totalSize : Nat) (drainOnDone : Bool) :
    Except String RangedDecompressReader :=
  if offset ≥ totalSize then .error "Range offset exceeds file size"
  else .ok ⟨true, offset, min (length.toInt % 2 ^ 64).toNat (totalSize - offset), 0, 0, drainOnDone⟩

def startDrain (reader : RangedDecompressReader) : RangedDecompressReader :=
  if reader.drainOnDone then { reader with hasInner := false } else reader

/-- The exits of the loop before the inner reader is asked. -/
def unasked (reader : RangedDecompressReader) (room : Nat) : Option RangedDecompressReader :=
  if reader.bytesReturned ≥ reader.targetLength then some reader.startDrain
  else if room = 0 ∨ reader.hasInner = false then some reader
  else none

end RangedDecompressReader

def unexpectedEof (reader : RangedDecompressReader) : IoError :=
  ⟨.unexpectedEof, "Unexpected EOF: only read " ++ toString reader.currentOffset ++
    " bytes, target offset is " ++ toString reader.targetOffset⟩

/-- A reader, what its inner reader still has and will answer, and what was handed out. -/
structure RangedRun where
  reader : RangedDecompressReader
  unread : Bytes
  schedule : List InnerPoll
  output : Bytes

def RangedRun.deliver (run : RangedRun) (room : Nat) (bytes : Bytes) : Polled × RangedRun :=
  let out := bytes.take (min room (run.reader.targetLength - run.reader.bytesReturned))
  (.ready out,
    { run with
      reader := { run.reader with bytesReturned := run.reader.bytesReturned + out.length }
      output := run.output ++ out })

/-- `poll_read` with room for so many bytes. -/
def RangedRun.pollAnswers (room : Nat) (reader : RangedDecompressReader) (unread output : Bytes) :
    List InnerPoll → Polled × RangedRun
  | [] =>
    match reader.unasked room with
    | some reader => (.ready [], ⟨reader, unread, [], output⟩)
    | none => (.pending, ⟨reader, unread, [], output⟩)
  | answer :: schedule =>
    match reader.unasked room with
    | some reader => (.ready [], ⟨reader, unread, answer :: schedule, output⟩)
    | none =>
      match answer with
      | .pending => (.pending, ⟨reader, unread, schedule, output⟩)
      | .failed error => (.failed error, ⟨reader, unread, schedule, output⟩)
      | .ready more =>
        let bytes := received more (min 8192 (max room 1)) unread
        if bytes = [] then
          if reader.currentOffset < reader.targetOffset then
            (.failed (unexpectedEof reader), ⟨reader, unread, schedule, output⟩)
          else (.ready [], ⟨reader, unread, schedule, output⟩)
        else
          let next := { reader with currentOffset := reader.currentOffset + bytes.length }
          if reader.currentOffset < reader.targetOffset ∧ next.currentOffset ≤ next.targetOffset then
            pollAnswers room next (unread.drop bytes.length) output schedule
          else
            RangedRun.deliver ⟨next, unread.drop bytes.length, schedule, output⟩ room
              (bytes.drop (reader.targetOffset - reader.currentOffset))

def RangedRun.pollRead (run : RangedRun) (room : Nat) : Polled × RangedRun :=
  RangedRun.pollAnswers room run.reader run.unread run.output run.schedule

def RangedRun.polls (run : RangedRun) (rooms : List Nat) : RangedRun :=
  rooms.foldl (fun run room => (run.pollRead room).2) run

variable {stream : Bytes} {offset wanted room : Nat} {run : RangedRun}
  {reader : RangedDecompressReader} {unread output : Bytes} {schedule : List InnerPoll}

/-- What was handed out is the part of the range in the bytes that were read. -/
structure Ranged (stream : Bytes) (offset wanted : Nat) (run : RangedRun) : Prop where
  targetOffset : run.reader.targetOffset = offset
  targetLength : run.reader.targetLength = wanted
  unread : run.unread = stream.drop run.reader.currentOffset
  reached : run.reader.currentOffset ≤ stream.length
  output : run.output = ((stream.take run.reader.currentOffset).drop offset).take wanted
  returned : run.reader.bytesReturned = run.output.length
  drained : run.reader.hasInner = false → wanted ≤ run.reader.bytesReturned

/-- All of the range that the stream has, and a stream that reaches the offset if it is not all of
the range. -/
def HandedOut (stream : Bytes) (offset wanted : Nat) (run : RangedRun) : Prop :=
  run.output = (stream.drop offset).take wanted ∧
    (run.output.length = wanted ∨ offset ≤ stream.length)

theorem Ranged.is_prefix (ranged : Ranged stream offset wanted run) :
    run.output <+: (stream.drop offset).take wanted := by
  rw [ranged.output]
  exact ((List.take_prefix _ stream).drop offset).take wanted

theorem Ranged.handed_out_full (ranged : Ranged stream offset wanted run)
    (full : wanted ≤ run.reader.bytesReturned) : HandedOut stream offset wanted run := by
  rw [ranged.returned] at full
  have short : ((stream.drop offset).take wanted).length ≤ wanted := length_take_le _ _
  have whole := ranged.is_prefix.eq_of_length_le (short.trans full)
  refine ⟨whole, Or.inl ?_⟩
  rw [whole] at full ⊢
  omega

theorem Ranged.handed_out_ended (ranged : Ranged stream offset wanted run)
    (ended : run.unread = []) (behind : offset ≤ run.reader.currentOffset) :
    HandedOut stream offset wanted run := by
  have all : run.reader.currentOffset = stream.length := by
    have drained := ranged.unread.symm.trans ended
    exact Nat.le_antisymm ranged.reached (drop_eq_nil_iff.1 drained)
  refine ⟨?_, Or.inr (all ▸ behind)⟩
  rw [ranged.output, all, take_length]

theorem unasked_ranged (ranged : Ranged stream offset wanted ⟨reader, unread, schedule, output⟩)
    (positive : 0 < room) {next : RangedDecompressReader} (rests : reader.unasked room = some next) :
    Ranged stream offset wanted ⟨next, unread, schedule, output⟩ ∧
      wanted ≤ next.bytesReturned := by
  have isLength : reader.targetLength = wanted := ranged.targetLength
  unfold RangedDecompressReader.unasked at rests
  split_ifs at rests with full asked
  · rw [← Option.some.inj rests]
    unfold RangedDecompressReader.startDrain
    split
    · exact ⟨{ ranged with drained := fun _ => isLength ▸ full }, isLength ▸ full⟩
    · exact ⟨ranged, isLength ▸ full⟩
  · rw [← Option.some.inj rests]
    exact ⟨ranged, ranged.drained (asked.resolve_left positive.ne')⟩

theorem read_ranged (ranged : Ranged stream offset wanted ⟨reader, unread, schedule, output⟩)
    (going : reader.bytesReturned < wanted) (hasInner : reader.hasInner = true) {bytes : Bytes}
    (isNext : bytes <+: unread) (later : List InnerPoll) :
    let out := (bytes.drop (offset - reader.currentOffset)).take (wanted - reader.bytesReturned)
    Ranged stream offset wanted
      ⟨{ reader with
          currentOffset := reader.currentOffset + bytes.length
          bytesReturned := reader.bytesReturned + out.length },
        unread.drop bytes.length, later, output ++ out⟩ := by
  intro out
  obtain ⟨isOffset, isLength, isUnread, reached, isOutput, returned, _⟩ := ranged
  dsimp only at isOffset isLength isUnread reached isOutput returned
  rw [isUnread] at isNext
  have extended : stream.take (reader.currentOffset + bytes.length) =
      stream.take reader.currentOffset ++ bytes := by
    rw [take_add, ← prefix_iff_eq_take.1 isNext]
  have bounded := isNext.length_le
  rw [length_drop] at bounded
  have before : ((stream.take reader.currentOffset).drop offset).length = reader.bytesReturned := by
    rw [returned, isOutput, length_take] at going ⊢
    omega
  have front : (stream.take reader.currentOffset).length = reader.currentOffset :=
    length_take_of_le reached
  refine ⟨isOffset, isLength, ?_, by dsimp only; omega, ?_, ?_, fun lost => ?_⟩
  · dsimp only
    rw [isUnread, drop_drop]
  · dsimp only
    rw [extended, drop_append, front, take_append, before, ← isOutput]
  · dsimp only
    rw [returned, length_append]
  · exact absurd (hasInner.symm.trans lost) (by decide)

theorem inner_asked (asks : reader.unasked room = none) :
    reader.bytesReturned < reader.targetLength ∧ reader.hasInner = true := by
  unfold RangedDecompressReader.unasked at asks
  split_ifs at asks with full rests
  rw [not_or, Bool.not_eq_false] at rests
  exact ⟨by omega, rests.2⟩

/-- A poll keeps the books, and it hands out nothing only at the end of the range or of the
stream. -/
theorem poll_answers_ranged (positive : 0 < room)
    (ranged : Ranged stream offset wanted ⟨reader, unread, schedule, output⟩) :
    Ranged stream offset wanted (RangedRun.pollAnswers room reader unread output schedule).2 ∧
      ((RangedRun.pollAnswers room reader unread output schedule).1 = .ready [] →
        HandedOut stream offset wanted
          (RangedRun.pollAnswers room reader unread output schedule).2) := by
  induction schedule generalizing reader unread output with
  | nil =>
    unfold RangedRun.pollAnswers
    split
    next next rests =>
      obtain ⟨ranged, full⟩ := unasked_ranged ranged positive rests
      exact ⟨ranged, fun _ => ranged.handed_out_full full⟩
    next => exact ⟨ranged, fun ended => nomatch ended⟩
  | cons answer schedule ih =>
    unfold RangedRun.pollAnswers
    split
    next next rests =>
      obtain ⟨ranged, full⟩ := unasked_ranged ranged positive rests
      exact ⟨ranged, fun _ => ranged.handed_out_full full⟩
    next asks =>
      have later : Ranged stream offset wanted ⟨reader, unread, schedule, output⟩ := { ranged with }
      cases answer with
      | pending | failed error => exact ⟨later, fun ended => nomatch ended⟩
      | ready more =>
        obtain ⟨going, hasInner⟩ := inner_asked asks
        obtain rfl : reader.targetOffset = offset := ranged.targetOffset
        obtain rfl : reader.targetLength = wanted := ranged.targetLength
        have isNext : received more (min 8192 (max room 1)) unread <+: unread := List.take_prefix _ _
        have fits := received_length_le more (min 8192 (max room 1)) unread
        have ends : received more (min 8192 (max room 1)) unread = [] → unread = [] :=
          received_nothing (by omega)
        dsimp only
        generalize received more (min 8192 (max room 1)) unread = bytes at isNext fits ends ⊢
        have read := read_ranged ranged going hasInner isNext schedule
        dsimp only at read
        split_ifs with nothing before skips
        · exact ⟨later, fun ended => nomatch ended⟩
        · exact ⟨later, fun _ => later.handed_out_ended (ends nothing) (Nat.not_lt.1 before)⟩
        · have skipped : bytes.drop (reader.targetOffset - reader.currentOffset) = [] :=
            drop_eq_nil_of_le (by omega)
          rw [skipped, take_nil, append_nil] at read
          exact ih read
        · have data : bytes.drop (reader.targetOffset - reader.currentOffset) ≠ [] := by
            intro skipped
            have positive := length_pos_iff.2 nothing
            have short := drop_eq_nil_iff.1 skipped
            omega
          have cut : (bytes.drop (reader.targetOffset - reader.currentOffset)).take
              (min room (reader.targetLength - reader.bytesReturned)) =
              (bytes.drop (reader.targetOffset - reader.currentOffset)).take
                (reader.targetLength - reader.bytesReturned) := by
            rw [take_eq_take_iff, length_drop]
            omega
          unfold RangedRun.deliver
          rw [cut]
          refine ⟨read, fun ended => ?_⟩
          rcases take_eq_nil_iff.1 (Polled.ready.inj ended) with full | empty
          · omega
          · exact absurd empty data

theorem polls_ranged (ranged : Ranged stream offset wanted run) {rooms : List Nat}
    (positive : ∀ room ∈ rooms, 0 < room) : Ranged stream offset wanted (run.polls rooms) := by
  induction rooms generalizing run with
  | nil => exact ranged
  | cons room rooms ih =>
    exact ih (poll_answers_ranged (positive room mem_cons_self) ranged).1
      fun other member => positive other (mem_cons_of_mem _ member)

/-- Whatever the inner reader answers, a ranged read hands out a prefix of the range, and it ends
without an error only when all of the range was handed out that the stream has. -/
theorem ranged_read (stream : Bytes) (offset : Nat) (length : Int64) (totalSize : Nat)
    (drainOnDone : Bool) (inside : offset < totalSize) (natural : 0 ≤ length.toInt)
    (schedule : List InnerPoll) (rooms : List Nat) (positive : ∀ room ∈ rooms, 0 < room) :
    ∃ reader, RangedDecompressReader.newWithDrain offset length totalSize drainOnDone = .ok reader ∧
      let run := RangedRun.polls ⟨reader, stream, schedule, []⟩ rooms
      let wanted := min length.toInt.toNat (totalSize - offset)
      run.output <+: (stream.drop offset).take wanted ∧
        ∀ room, 0 < room → (run.pollRead room).1 = .ready [] →
          HandedOut stream offset wanted (run.pollRead room).2 := by
  have unsigned : length.toInt % 2 ^ 64 = length.toInt := by
    have bounded := length.toInt_lt
    omega
  refine ⟨_, if_neg (Nat.not_le.2 inside), ?_⟩
  rw [unsigned]
  have start : Ranged stream offset (min length.toInt.toNat (totalSize - offset))
      ⟨⟨true, offset, min length.toInt.toNat (totalSize - offset), 0, 0, drainOnDone⟩, stream,
        schedule, []⟩ :=
    ⟨rfl, rfl, rfl, Nat.zero_le _, by simp, rfl, fun lost => nomatch lost⟩
  have ranged := polls_ranged start positive
  exact ⟨ranged.is_prefix, fun room more => (poll_answers_ranged more ranged).2⟩

theorem short_stream_handed_out :
    let run := RangedRun.polls
      ⟨⟨true, 1, 2, 0, 0, false⟩, [5, 6], [.ready 8, .pending, .ready 0], []⟩ [3, 1]
    (run.pollRead 1).1 = .ready [] ∧ HandedOut [5, 6] 1 2 (run.pollRead 1).2 := by
  obtain ⟨reader, isReader, _, ends⟩ := ranged_read [5, 6] 1 2 3 false (by decide) (by decide)
    [.ready 8, .pending, .ready 0] [3, 1] (by decide)
  obtain rfl := Except.ok.inj isReader
  exact ⟨rfl, ends 1 Nat.one_pos rfl⟩

/-- A stream of two bytes, announced as three, ends the read of its last two bytes after one. -/
theorem ranged_read_ends_short :
    let run := RangedRun.polls
      ⟨⟨true, 1, 2, 0, 0, false⟩, [5, 6], [.ready 8, .ready 0], []⟩ [3]
    RangedDecompressReader.newWithDrain 1 2 3 false = .ok ⟨true, 1, 2, 0, 0, false⟩ ∧
      ¬ ((run.pollRead 1).1 = .ready [] → (run.pollRead 1).2.output.length = 2) :=
  ⟨rfl, fun full => absurd (full rfl) (by decide)⟩

end Rustfs.Ecstore
