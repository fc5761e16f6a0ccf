import Mathlib.Algebra.Order.Ring.Nat
import Rustfs.Ecstore.DiskError
import Rustfs.Library.ByteReader

/-!
# The decoding reader with lookahead

A caller polls the reader with buffers of its own. Stripes are decoded by a fill worker
that answers one request at a time, at some later poll, with the output of the next
stripe and, when two may be in flight, with that of the stripe behind it. The machine
takes one turn of the `poll_read` loop at a time; whether a pending answer is ready is
an input of the turn. Wakers are left out: a poll is one call with the worker's answer
as an argument.
-/

namespace Rustfs.Ecstore

open List Option Bool
open Library.ByteReader (Bytes)

inductive FillPolicy where
  | singleInFlight
  | dualInFlight
  deriving DecidableEq, Repr

namespace FillPolicy

def maxInflight : FillPolicy → Nat
  | .singleInFlight => 1
  | .dualInFlight => 2

def additionalQueuedBuffers (policy : FillPolicy) : Nat := policy.maxInflight - 1

end FillPolicy

inductive Poll (α : Type) where
  | pending
  | ready (value : α)

structure FillResult where
  result : Except DiskError (Option Bytes)
  queuedBuffers : List Bytes
  deferredError : Option DiskError

/-- `ErasureDecodeReader` with its worker: the stripes the source has not handed
out yet, and the length a request in flight was sent with. -/
structure DecodeReader (σ : Type) where
  policy : FillPolicy
  source : List σ
  outputBuf : Bytes
  outputPos : Nat
  prefetchedBufs : List Bytes
  prefetchError : Option DiskError
  remaining : Nat
  fill : Option Nat

/-- The caller's buffer during one `poll_read`: its room and what was put in. -/
structure ReadCall where
  capacity : Nat
  filled : Bytes

namespace ReadCall

def room (call : ReadCall) : Nat := call.capacity - call.filled.length

end ReadCall

section Worker

variable {σ : Type} (decode : σ → Nat → Except DiskError (Option Bytes))

/-- The next stripe read and decoded; an exhausted source gives an empty stripe. -/
def decodeNext : List σ → Nat → Except DiskError (Option Bytes) × List σ
  | [], _ => (.ok none, [])
  | stripe :: rest, remaining => (decode stripe remaining, rest)

/-- The loop of `run_fill_request` over the additional stripes. -/
def queueStripes : Nat → List σ → Nat → List Bytes → List Bytes × Option DiskError × List σ
  | 0, source, _, queued => (queued, none, source)
  | count + 1, source, left, queued =>
    if left = 0 then (queued, none, source)
    else
      match decodeNext decode source left with
      | (.ok (some buffer), rest) =>
        queueStripes count rest (left - buffer.length) (queued ++ [buffer])
      | (.ok none, rest) => (queued, some .lessData, rest)
      | (.error error, rest) => (queued, some error, rest)

def runFillRequest (policy : FillPolicy) (source : List σ) (remaining : Nat) :
    FillResult × List σ :=
  match decodeNext decode source remaining with
  | (.ok (some first), rest) =>
    match queueStripes decode policy.additionalQueuedBuffers rest (remaining - first.length) [] with
    | (queued, deferred, behind) => (⟨.ok (some first), queued, deferred⟩, behind)
  | (result, rest) => (⟨result, [], none⟩, rest)

end Worker

namespace DecodeReader

variable {σ : Type}

def new (policy : FillPolicy) (source : List σ) (totalLength : Nat) : DecodeReader σ :=
  ⟨policy, source, [], 0, [], none, totalLength, none⟩

/-- The bytes of the current output that were not copied yet. -/
def unread (reader : DecodeReader σ) : Bytes := reader.outputBuf.drop reader.outputPos

def requestFill (reader : DecodeReader σ) : DecodeReader σ :=
  { reader with fill := some (reader.fill.getD reader.remaining) }

def acceptFill (reader : DecodeReader σ) (answer : FillResult) (source : List σ) :
    DecodeReader σ :=
  { reader with
    source
    fill := none
    prefetchError := answer.deferredError.or reader.prefetchError
    remaining := reader.remaining - (answer.queuedBuffers.map List.length).sum
    prefetchedBufs := reader.prefetchedBufs ++ answer.queuedBuffers }

def pollFillResult (decode : σ → Nat → Except DiskError (Option Bytes)) (ready : Bool)
    (reader : DecodeReader σ) : DecodeReader σ × Poll (Except DiskError (Option Bytes)) :=
  if !ready then (reader.requestFill, .pending)
  else
    match runFillRequest decode reader.policy reader.source
        (reader.fill.getD reader.remaining) with
    | (answer, source) =>
      let reader := reader.acceptFill answer source
      match answer.result with
      | .ok (some buffer) =>
        if buffer.isEmpty && 0 < reader.remaining then (reader, .ready (.error .lessData))
        else
          ({ reader with remaining := reader.remaining - buffer.length },
            .ready (.ok (some buffer)))
      | .ok none =>
        (reader, .ready (if reader.remaining = 0 then .ok none else .error .lessData))
      | .error error => (reader, .ready (.error error))

def pollPrefetch (decode : σ → Nat → Except DiskError (Option Bytes)) (ready : Bool)
    (reader : DecodeReader σ) : DecodeReader σ × Poll (Except DiskError Unit) :=
  if reader.policy.maxInflight ≤ reader.prefetchedBufs.length || reader.prefetchError.isSome ||
      reader.remaining = 0 then
    (reader, .ready (.ok ()))
  else
    match reader.pollFillResult decode ready with
    | (reader, .pending) => (reader, .pending)
    | (reader, .ready (.ok (some buffer))) =>
      if reader.outputPos < reader.outputBuf.length then
        ({ reader with prefetchedBufs := reader.prefetchedBufs ++ [buffer] }, .ready (.ok ()))
      else ({ reader with outputBuf := buffer, outputPos := 0 }, .ready (.ok ()))
    | (reader, .ready (.ok none)) => (reader, .ready (.ok ()))
    | (reader, .ready (.error error)) =>
      if reader.outputPos < reader.outputBuf.length then
        ({ reader with prefetchError := some error }, .ready (.ok ()))
      else (reader, .ready (.error error))

/-- The lookahead attempted while the current output is being copied. -/
def lookahead (decode : σ → Nat → Except DiskError (Option Bytes)) (ready : Bool)
    (reader : DecodeReader σ) : DecodeReader σ × Except DiskError Unit :=
  if reader.policy = .dualInFlight && reader.prefetchedBufs.length < reader.policy.maxInflight &&
      reader.prefetchError.isNone && 0 < reader.remaining then
    match reader.pollPrefetch decode ready with
    | (reader, .ready result) => (reader, result)
    | (reader, .pending) => (reader, .ok ())
  else (reader, .ok ())

end DecodeReader

/-- How a turn of the loop ends: the poll goes on, or it returns. -/
inductive Turn where
  | goOn
  | done (result : Poll (Except DiskError Unit))

namespace DecodeReader

variable {σ : Type}

/-- The branch that copies out of the current output buffer. -/
def copyTurn (reader : DecodeReader σ) (call : ReadCall) : DecodeReader σ × ReadCall × Turn :=
  let copyLen := min reader.unread.length call.room
  let copied : ReadCall := { call with filled := call.filled ++ reader.unread.take copyLen }
  let reader := { reader with outputPos := reader.outputPos + copyLen }
  if copied.room = 0 then (reader, copied, .done (.ready (.ok ()))) else (reader, copied, .goOn)

/-- The branch that gets the next output buffer. -/
def refillTurn (decode : σ → Nat → Except DiskError (Option Bytes)) (ready : Bool)
    (reader : DecodeReader σ) (call : ReadCall) : DecodeReader σ × ReadCall × Turn :=
  let reader := { reader with outputBuf := [], outputPos := 0 }
  match reader.prefetchedBufs with
  | next :: rest =>
    ({ reader with outputBuf := next, outputPos := 0, prefetchedBufs := rest }, call, .goOn)
  | [] =>
    match reader.prefetchError with
    | some error =>
      if 0 < call.filled.length then (reader, call, .done (.ready (.ok ())))
      else ({ reader with prefetchError := none }, call, .done (.ready (.error error)))
    | none =>
      if reader.remaining = 0 then (reader, call, .done (.ready (.ok ())))
      else
        match reader.pollPrefetch decode ready with
        | (reader, .pending) =>
          if 0 < call.filled.length then (reader, call, .done (.ready (.ok ())))
          else (reader, call, .done .pending)
        | (reader, .ready (.ok _)) => (reader, call, .goOn)
        | (reader, .ready (.error error)) => (reader, call, .done (.ready (.error error)))

/-- One turn of the loop of `poll_read`. -/
def turn (decode : σ → Nat → Except DiskError (Option Bytes)) (ready : Bool)
    (reader : DecodeReader σ) (call : ReadCall) : DecodeReader σ × ReadCall × Turn :=
  if reader.outputPos < reader.outputBuf.length then
    match reader.lookahead decode ready with
    | (reader, .error error) => (reader, call, .done (.ready (.error error)))
    | (reader, .ok _) => reader.copyTurn call
  else reader.refillTurn decode ready call

end DecodeReader

/-- The reader, the poll in progress, and what the caller has seen so far: the
bytes put into its buffers, whether an end of stream was reported, and an error. -/
structure ReadMachine (σ : Type) where
  reader : DecodeReader σ
  call : Option ReadCall
  delivered : Bytes
  ended : Bool
  failed : Option DiskError

/-- A poll begins with a buffer of some capacity, or its loop takes a turn at
which a pending answer is ready or not. -/
inductive ReadEvent where
  | pollRead (capacity : Nat)
  | turn (ready : Bool)
  deriving DecidableEq, Repr

namespace ReadMachine

variable {σ : Type}

def start (policy : FillPolicy) (source : List σ) (totalLength : Nat) : ReadMachine σ :=
  ⟨.new policy source totalLength, none, [], false, none⟩

/-- What the end of a poll tells the caller: nothing put into a buffer with room
is an end of stream. -/
def finish (machine : ReadMachine σ) (call : ReadCall) : Poll (Except DiskError Unit) → ReadMachine σ
  | .pending => { machine with call := none }
  | .ready (.ok _) =>
    { machine with
      call := none
      ended := machine.ended || (call.filled.isEmpty && 0 < call.capacity) }
  | .ready (.error error) => { machine with call := none, failed := machine.failed.or (some error) }

def takeTurn (decode : σ → Nat → Except DiskError (Option Bytes)) (ready : Bool)
    (machine : ReadMachine σ) (call : ReadCall) : ReadMachine σ :=
  match machine.reader.turn decode ready call with
  | (reader, after, outcome) =>
    let machine := { machine with
      reader
      delivered := machine.delivered ++ after.filled.drop call.filled.length }
    match outcome with
    | .goOn => { machine with call := some after }
    | .done result => machine.finish after result

def step (decode : σ → Nat → Except DiskError (Option Bytes)) (machine : ReadMachine σ) :
    ReadEvent → ReadMachine σ
  | .pollRead capacity =>
    match machine.call with
    | none => { machine with call := some ⟨capacity, []⟩ }
    | some _ => machine
  | .turn ready =>
    match machine.call with
    | none => machine
    | some call => machine.takeTurn decode ready call

def run (decode : σ → Nat → Except DiskError (Option Bytes)) (machine : ReadMachine σ)
    (events : List ReadEvent) : ReadMachine σ :=
  events.foldl (step decode) machine

end ReadMachine

section

variable {σ : Type} {decode : σ → Nat → Except DiskError (Option Bytes)} {outputs : List Bytes}
  {source : List σ}

/-- Each stripe decodes, at the length then still missing, to its output; the
outputs are not empty and add up to the length missing at the start. -/
inductive Outputs (decode : σ → Nat → Except DiskError (Option Bytes)) :
    List σ → Nat → List Bytes → Prop
  | nil : Outputs decode [] 0 []
  | cons {stripe : σ} {source : List σ} {remaining : Nat} {output : Bytes} {outputs : List Bytes}
      (decoded : decode stripe remaining = .ok (some output)) (filled : 0 < output.length)
      (within : output.length ≤ remaining)
      (rest : Outputs decode source (remaining - output.length) outputs) :
      Outputs decode (stripe :: source) remaining (output :: outputs)

theorem Outputs.eq_nil (outs : Outputs decode source 0 outputs) : outputs = [] := by
  cases outs with
  | nil => rfl
  | cons decoded filled within rest => omega

theorem queue_stripes_spec {left : Nat}
    (outs : Outputs decode source left outputs) (count : Nat) (queued : List Bytes) :
    ∃ more rest behind, outputs = more ++ rest ∧
      queueStripes decode count source left queued = (queued ++ more, none, behind) ∧
      Outputs decode behind (left - more.flatten.length) rest ∧
      more.flatten.length ≤ left ∧ (count = 0 ∨ source = [] → more = []) := by
  induction count generalizing source left outputs queued with
  | zero => exact ⟨[], outputs, source, rfl, by simp [queueStripes], outs, by simp, by simp⟩
  | succ count induction =>
    cases outs with
    | nil => exact ⟨[], [], [], rfl, by simp [queueStripes], .nil, by simp, by simp⟩
    | @cons stripe source _ output outputs decoded filled within tail =>
      have notZero : ¬ left = 0 := by omega
      obtain ⟨more, rest, behind, split, ran, left', bound, _⟩ :=
        induction tail (queued ++ [output])
      have lengths : (output :: more).flatten.length = output.length + more.flatten.length := by
        rw [flatten_cons, length_append]
      refine ⟨output :: more, rest, behind, by rw [split, cons_append], ?_, ?_, ?_, ?_⟩
      · rw [queueStripes, if_neg notZero, decodeNext, decoded]
        dsimp only
        rw [ran, append_assoc, singleton_append]
      · rw [lengths, Nat.sub_add_eq]
        exact left'
      · omega
      · intro vacant
        rcases vacant with vacant | vacant <;> cases vacant

/-- A request is answered with the next output, and with those behind it that the
policy allows. -/
theorem run_fill_request_spec {remaining : Nat}
    (outs : Outputs decode source remaining outputs) (filled : 0 < remaining) (policy : FillPolicy) :
    ∃ first queued rest behind, outputs = first :: (queued ++ rest) ∧
      runFillRequest decode policy source remaining =
        (⟨.ok (Option.some first), queued, none⟩, behind) ∧
      Outputs decode behind (remaining - first.length - queued.flatten.length) rest ∧
      0 < first.length ∧ first.length + queued.flatten.length ≤ remaining ∧
      (policy = .singleInFlight ∨ source.length ≤ 1 → queued = []) := by
  cases outs with
  | nil => omega
  | @cons stripe source _ output outputs decoded positive within tail =>
    obtain ⟨queued, rest, behind, split, ran, left, bound, single⟩ :=
      queue_stripes_spec tail policy.additionalQueuedBuffers []
    refine ⟨output, queued, rest, behind, by rw [split], ?_, left, positive, by omega, ?_⟩
    · rw [runFillRequest, decodeNext, decoded]
      dsimp only
      rw [ran, nil_append]
    · intro few
      apply single
      rcases few with one | last
      · rw [one]
        exact .inl rfl
      · apply Or.inr
        apply eq_nil_of_length_eq_zero
        rw [length_cons] at last
        omega

end

/-- The reader will put exactly `bytes` into the buffers of its caller: the rest
of its output, then the prefetched outputs, then those of the source. -/
structure Serves {σ : Type} (decode : σ → Nat → Except DiskError (Option Bytes))
    (reader : DecodeReader σ) (bytes : Bytes) : Prop where
  outputs : ∃ rest, Outputs decode reader.source reader.remaining rest ∧
    reader.unread ++ (reader.prefetchedBufs.flatten ++ rest.flatten) = bytes
  request : ∀ length, reader.fill = some length → length = reader.remaining
  healthy : reader.prefetchError = none

section

variable {σ : Type} {decode : σ → Nat → Except DiskError (Option Bytes)}
  {reader : DecodeReader σ} {bytes : Bytes}

section

variable (serves : Serves decode reader bytes)

include serves

theorem Serves.fill_length : reader.fill.getD reader.remaining = reader.remaining := by
  cases sent : reader.fill with
  | none => rfl
  | some length => exact serves.request length sent

theorem Serves.request_fill : Serves decode reader.requestFill bytes := by
  constructor
  · exact serves.outputs
  · intro length sent
    have same : some (reader.fill.getD reader.remaining) = some length := sent
    rw [serves.fill_length] at same
    exact (Option.some.inj same).symm
  · exact serves.healthy

/-- An answer moves outputs from the source: the first is returned, the others
are queued behind the prefetched ones. -/
theorem poll_fill_ready (filled : 0 < reader.remaining) :
    ∃ first queued rest behind,
      reader.pollFillResult decode true =
        ({ reader with
            source := behind
            fill := none
            remaining := reader.remaining - first.length - queued.flatten.length
            prefetchedBufs := reader.prefetchedBufs ++ queued },
          .ready (.ok (Option.some first))) ∧
      Outputs decode behind (reader.remaining - first.length - queued.flatten.length) rest ∧
      reader.unread ++ (reader.prefetchedBufs.flatten ++ (first ++ (queued.flatten ++
        rest.flatten))) = bytes ∧
      (reader.policy = .singleInFlight ∨ reader.source.length ≤ 1 → queued = []) := by
  obtain ⟨outputs, outs, owed⟩ := serves.outputs
  obtain ⟨first, queued, rest, behind, split, ran, left, positive, bound, single⟩ :=
    run_fill_request_spec outs filled reader.policy
  refine ⟨first, queued, rest, behind, ?_, left, ?_, single⟩
  · have notEmpty : first.isEmpty = false := by
      rw [isEmpty_eq_false_iff]
      intro vacant
      rw [vacant] at positive
      simp at positive
    have sum : (queued.map List.length).sum = queued.flatten.length := length_flatten.symm
    unfold DecodeReader.pollFillResult
    rw [serves.fill_length, ran]
    simp only [Bool.not_true, false_eq_true, if_false, notEmpty, Bool.false_and,
      DecodeReader.acceptFill, serves.healthy, or_none, sum]
    rw [Nat.sub_right_comm]
  · rw [← owed, split, flatten_cons, flatten_append]

/-- While output is left, an answer that carries one stripe only is queued behind
the prefetched ones. -/
theorem Serves.lookahead (ready : Bool) (pending : reader.outputPos < reader.outputBuf.length)
    (calm : ready = true → reader.policy = .dualInFlight → reader.prefetchedBufs.length < 2 →
      0 < reader.remaining → reader.source.length ≤ 1) :
    ∃ after, reader.lookahead decode ready = (after, .ok ()) ∧ Serves decode after bytes ∧
      after.outputBuf = reader.outputBuf ∧ after.outputPos = reader.outputPos := by
  unfold DecodeReader.lookahead
  split
  · rename_i tried
    simp only [and_eq_true, decide_eq_true_eq, isNone_iff_eq_none] at tried
    obtain ⟨⟨⟨dual, few⟩, _⟩, filled⟩ := tried
    have tries : ¬ (reader.policy.maxInflight ≤ reader.prefetchedBufs.length ||
        reader.prefetchError.isSome || reader.remaining = 0) = true := by
      simp only [serves.healthy, isSome_none, Bool.or_false, or_eq_true, decide_eq_true_eq]
      omega
    unfold DecodeReader.pollPrefetch
    rw [if_neg tries]
    cases ready with
    | false =>
      exact ⟨reader.requestFill, rfl, serves.request_fill, rfl, rfl⟩
    | true =>
      rw [dual] at few
      obtain ⟨first, queued, rest, behind, polled, left, owed, single⟩ :=
        poll_fill_ready serves filled
      have vacant : queued = [] := single (.inr (calm rfl dual few filled))
      subst vacant
      rw [polled]
      simp only [pending, if_true]
      refine ⟨_, rfl, ⟨⟨rest, left, ?_⟩, (fun length sent => by cases sent), serves.healthy⟩, rfl,
        rfl⟩
      rw [← owed]
      simp [DecodeReader.unread]
  · exact ⟨reader, rfl, serves, rfl, rfl⟩

theorem Serves.copy_turn (call : ReadCall) :
    ∃ after copied left outcome, reader.copyTurn call =
        (after, { call with filled := call.filled ++ copied }, outcome) ∧
      bytes = copied ++ left ∧ Serves decode after left ∧
      (outcome = .goOn ∨ outcome = .done (.ready (.ok ())) ∧
        call.capacity ≤ (call.filled ++ copied).length) := by
  obtain ⟨rest, outs, owed⟩ := serves.outputs
  generalize count : min reader.unread.length call.room = copyLen
  have advanced : Serves decode { reader with outputPos := reader.outputPos + copyLen }
      (reader.unread.drop copyLen ++ (reader.prefetchedBufs.flatten ++ rest.flatten)) := by
    refine ⟨⟨rest, outs, ?_⟩, serves.request, serves.healthy⟩
    rw [DecodeReader.unread, ← drop_drop]
    rfl
  have handed : bytes = reader.unread.take copyLen ++
      (reader.unread.drop copyLen ++ (reader.prefetchedBufs.flatten ++ rest.flatten)) := by
    rw [← append_assoc, take_append_drop, owed]
  unfold DecodeReader.copyTurn
  dsimp only
  rw [count]
  split
  · rename_i full
    rw [ReadCall.room] at full
    exact ⟨_, _, _, _, rfl, handed, advanced, .inr ⟨rfl, Nat.le_of_sub_eq_zero full⟩⟩
  · exact ⟨_, _, _, _, rfl, handed, advanced, .inl rfl⟩

/-- Getting the next output hands over nothing; the poll then ends cleanly only
when bytes were put in before or nothing is owed any more. -/
theorem Serves.refill_turn (ready : Bool)
    (drained : ¬ reader.outputPos < reader.outputBuf.length) (call : ReadCall) :
    ∃ after outcome, reader.refillTurn decode ready call = (after, call, outcome) ∧
      Serves decode after bytes ∧
      (outcome = .goOn ∨ outcome = .done .pending ∨
        outcome = .done (.ready (.ok ())) ∧ (0 < call.filled.length ∨ bytes = [])) := by
  obtain ⟨rest, outs, owed⟩ := serves.outputs
  have empty : reader.unread = [] := drop_of_length_le (Nat.le_of_not_lt drained)
  rw [empty, nil_append] at owed
  have recycled : Serves decode { reader with outputBuf := [], outputPos := 0 } bytes :=
    ⟨⟨rest, outs, owed⟩, serves.request, serves.healthy⟩
  unfold DecodeReader.refillTurn
  cases prefetched : reader.prefetchedBufs with
  | cons next others =>
    refine ⟨_, .goOn, rfl, ⟨⟨rest, outs, ?_⟩, serves.request, serves.healthy⟩, .inl rfl⟩
    rw [← owed, prefetched, flatten_cons, append_assoc]
    rfl
  | nil =>
    rw [serves.healthy]
    dsimp only
    rw [prefetched, serves.healthy] at recycled
    by_cases zero : reader.remaining = 0
    · rw [if_pos zero]
      refine ⟨_, _, rfl, recycled, .inr (.inr ⟨rfl, .inr ?_⟩)⟩
      rw [zero] at outs
      rw [← owed, prefetched, outs.eq_nil]
      rfl
    · rw [if_neg zero]
      have tries : ¬ (reader.policy.maxInflight ≤ ([] : List Bytes).length ||
          (none : Option DiskError).isSome || reader.remaining = 0) = true := by
        cases reader.policy <;> simp [FillPolicy.maxInflight, zero]
      unfold DecodeReader.pollPrefetch
      rw [if_neg tries]
      cases ready with
      | false =>
        have asked := recycled.request_fill
        by_cases filled : 0 < call.filled.length
        · simp only [filled, if_true]
          exact ⟨_, _, rfl, asked, .inr (.inr ⟨rfl, .inl trivial⟩)⟩
        · simp only [filled, if_false]
          exact ⟨_, _, rfl, asked, .inr (.inl rfl)⟩
      | true =>
        obtain ⟨first, queued, others, behind, polled, left, owed', _⟩ :=
          poll_fill_ready recycled (Nat.pos_of_ne_zero zero)
        rw [polled]
        refine ⟨_, _, rfl, ⟨⟨others, left, ?_⟩, (fun length sent => by cases sent), rfl⟩,
          .inl rfl⟩
        rw [← owed']
        simp [DecodeReader.unread]

end

/-- An answer with two stripes is accepted while output is left unread. -/
def OvertakesOutput (ready : Bool) (reader : DecodeReader σ) : Prop :=
  ready = true ∧ reader.outputPos < reader.outputBuf.length ∧ reader.policy = .dualInFlight ∧
    reader.prefetchedBufs.length < 2 ∧ reader.prefetchError = none ∧ 0 < reader.remaining ∧
    2 ≤ reader.source.length

/-- One turn hands over the front of what is owed and reports no error; it ends
the poll cleanly and empty-handed only when nothing is owed any more. -/
theorem Serves.turn (serves : Serves decode reader bytes) (ready : Bool)
    (calm : ¬ OvertakesOutput ready reader) (call : ReadCall) :
    ∃ after copied left outcome,
      reader.turn decode ready call =
        (after, { call with filled := call.filled ++ copied }, outcome) ∧
      bytes = copied ++ left ∧ Serves decode after left ∧
      (outcome = .goOn ∨ outcome = .done .pending ∨
        outcome = .done (.ready (.ok ())) ∧
          (call.filled ++ copied = [] → 0 < call.capacity → left = [])) := by
  unfold DecodeReader.turn
  split
  · rename_i pending
    have single : ready = true → reader.policy = .dualInFlight →
        reader.prefetchedBufs.length < 2 → 0 < reader.remaining → reader.source.length ≤ 1 := by
      intro polled dual few filled
      by_contra several
      exact calm ⟨polled, pending, dual, few, serves.healthy, filled, by omega⟩
    obtain ⟨ahead, looked, keeps, _⟩ := serves.lookahead ready pending single
    obtain ⟨after, copied, left, outcome, turned, handed, keeps', ends⟩ := keeps.copy_turn call
    rw [looked]
    refine ⟨after, copied, left, outcome, turned, handed, keeps', ?_⟩
    rcases ends with goesOn | ⟨done, full⟩
    · exact .inl goesOn
    · refine .inr (.inr ⟨done, ?_⟩)
      intro empty room
      rw [empty, length_nil] at full
      omega
  · rename_i drained
    obtain ⟨after, outcome, turned, keeps, ends⟩ := serves.refill_turn ready drained call
    refine ⟨after, [], bytes, outcome, by rw [turned, append_nil], rfl, keeps, ?_⟩
    rcases ends with goesOn | waits | ⟨done, rest⟩
    · exact .inl goesOn
    · exact .inr (.inl waits)
    · refine .inr (.inr ⟨done, ?_⟩)
      intro empty _
      rcases rest with filled | none
      · rw [append_nil] at empty
        rw [empty] at filled
        cases filled
      · exact none

end

/-- What the caller got and what the reader owes make up the whole body. -/
structure InOrder {σ : Type} (decode : σ → Nat → Except DiskError (Option Bytes)) (body : Bytes)
    (machine : ReadMachine σ) : Prop where
  owed : ∃ bytes, Serves decode machine.reader bytes ∧ machine.delivered ++ bytes = body
  sound : machine.failed = none
  complete : machine.ended = true → machine.delivered = body

section

variable {σ : Type} {decode : σ → Nat → Except DiskError (Option Bytes)} {body : Bytes}
  {machine : ReadMachine σ}

def Overtakes (machine : ReadMachine σ) : ReadEvent → Prop
  | .pollRead _ => False
  | .turn ready => machine.call.isSome ∧ OvertakesOutput ready machine.reader

/-- No event of the run accepts two stripes while output is left unread. -/
def CalmRun (decode : σ → Nat → Except DiskError (Option Bytes)) :
    ReadMachine σ → List ReadEvent → Prop
  | _, [] => True
  | machine, event :: events =>
    ¬ Overtakes machine event ∧ CalmRun decode (machine.step decode event) events

instance (ready : Bool) (reader : DecodeReader σ) : Decidable (OvertakesOutput ready reader) :=
  inferInstanceAs (Decidable (_ ∧ _))

instance : (machine : ReadMachine σ) → (event : ReadEvent) → Decidable (Overtakes machine event)
  | _, .pollRead _ => inferInstanceAs (Decidable False)
  | _, .turn _ => inferInstanceAs (Decidable (_ ∧ _))

instance calmRunDecidable (decode : σ → Nat → Except DiskError (Option Bytes)) :
    (machine : ReadMachine σ) → (events : List ReadEvent) → Decidable (CalmRun decode machine events)
  | _, [] => isTrue trivial
  | machine, event :: events =>
    haveI := calmRunDecidable decode (machine.step decode event) events
    inferInstanceAs (Decidable (_ ∧ _))

theorem in_order_start (policy : FillPolicy) {source : List σ} {total : Nat}
    {outputs : List Bytes} (outs : Outputs decode source total outputs) :
    InOrder decode outputs.flatten (.start policy source total) := by
  refine ⟨⟨outputs.flatten, ⟨⟨outputs, outs, rfl⟩, (fun length sent => by cases sent), rfl⟩, rfl⟩,
    rfl, ?_⟩
  intro ended
  cases ended

theorem InOrder.step (inOrder : InOrder decode body machine) (event : ReadEvent)
    (calm : ¬ Overtakes machine event) : InOrder decode body (machine.step decode event) := by
  cases event with
  | pollRead capacity =>
    cases open_ : machine.call with
    | none =>
      simp only [ReadMachine.step, open_]
      exact ⟨inOrder.owed, inOrder.sound, inOrder.complete⟩
    | some call =>
      simp only [ReadMachine.step, open_]
      exact inOrder
  | turn ready =>
    cases open_ : machine.call with
    | none =>
      simp only [ReadMachine.step, open_]
      exact inOrder
    | some call =>
      obtain ⟨bytes, serves, whole⟩ := inOrder.owed
      have safe : ¬ OvertakesOutput ready machine.reader := by
        intro overtakes
        exact calm ⟨by rw [open_]; rfl, overtakes⟩
      obtain ⟨after, copied, left, outcome, turned, handed, keeps, ends⟩ :=
        serves.turn ready safe call
      have owed : ∃ bytes, Serves decode after bytes ∧
          (machine.delivered ++ copied) ++ bytes = body :=
        ⟨left, keeps, by rw [← whole, handed, append_assoc]⟩
      have complete : machine.ended = true → machine.delivered ++ copied = body := by
        intro ended
        have all := inOrder.complete ended
        rw [all, handed, append_right_eq_self, append_eq_nil_iff] at whole
        rw [all, whole.1, append_nil]
      simp only [ReadMachine.step, open_, ReadMachine.takeTurn, turned, drop_left]
      rcases ends with rfl | rfl | ⟨rfl, last⟩
      · exact ⟨owed, inOrder.sound, complete⟩
      · exact ⟨owed, inOrder.sound, complete⟩
      · refine ⟨owed, inOrder.sound, ?_⟩
        intro ended
        simp only [ReadMachine.finish, or_eq_true, and_eq_true,
          List.isEmpty_iff, decide_eq_true_eq] at ended
        rcases ended with before | ⟨empty, room⟩
        · exact complete before
        · have vacant := last empty room
          rw [handed, vacant, append_nil] at whole
          exact whole

theorem InOrder.run (inOrder : InOrder decode body machine) (events : List ReadEvent)
    (calm : CalmRun decode machine events) : InOrder decode body (machine.run decode events) := by
  induction events generalizing machine with
  | nil => exact inOrder
  | cons event events induction =>
    exact induction (inOrder.step event calm.1) calm.2

end

/-- In a run that never accepts two stripes while output is left unread, the
caller gets the outputs in stripe order, without an error, and an end of stream
only behind the last of them. -/
theorem lookahead_keeps_order {σ : Type} (decode : σ → Nat → Except DiskError (Option Bytes))
    (policy : FillPolicy) (source : List σ) (total : Nat) (outputs : List Bytes)
    (outs : Outputs decode source total outputs) (events : List ReadEvent)
    (calm : CalmRun decode (.start policy source total) events) :
    ((ReadMachine.start policy source total).run decode events).delivered <+: outputs.flatten ∧
      ((ReadMachine.start policy source total).run decode events).failed = none ∧
      (((ReadMachine.start policy source total).run decode events).ended = true →
        ((ReadMachine.start policy source total).run decode events).delivered =
          outputs.flatten) := by
  have inOrder := (in_order_start policy outs).run events calm
  obtain ⟨bytes, _, whole⟩ := inOrder.owed
  exact ⟨⟨bytes, whole⟩, inOrder.sound, inOrder.complete⟩

def plainDecode (stripe : Bytes) (remaining : Nat) : Except DiskError (Option Bytes) :=
  .ok (some (stripe.take remaining))

theorem lookahead_keeps_order_two_stripes :
    ((ReadMachine.start .dualInFlight [[0, 1], [2, 3]] 4).run plainDecode
      [.pollRead 3, .turn true, .turn true, .turn true, .turn true, .pollRead 3, .turn true,
        .turn true, .pollRead 3, .turn true]).delivered = [0, 1, 2, 3] := by
  have outs : Outputs plainDecode [[0, 1], [2, 3]] 4 [[0, 1], [2, 3]] :=
    .cons rfl (by decide) (by decide) (.cons rfl (by decide) (by decide) .nil)
  exact (lookahead_keeps_order plainDecode .dualInFlight [[0, 1], [2, 3]] 4 [[0, 1], [2, 3]] outs
    [.pollRead 3, .turn true, .turn true, .turn true, .turn true, .pollRead 3, .turn true,
      .turn true, .pollRead 3, .turn true] (by decide)).2.2 rfl

/-- The caller reads one byte of the first stripe; the answer with the third and
the fourth stripe is then ready, and the fourth is queued before the third. -/
theorem lookahead_swaps_stripes :
    ¬ ∀ (policy : FillPolicy) (source : List Bytes) (total : Nat) (outputs : List Bytes)
      (events : List ReadEvent), Outputs plainDecode source total outputs →
      ((ReadMachine.start policy source total).run plainDecode events).delivered <+:
        outputs.flatten := by
  intro every
  have outs : Outputs plainDecode [[0, 1], [2, 3], [4, 5], [6, 7]] 8
      [[0, 1], [2, 3], [4, 5], [6, 7]] :=
    .cons rfl (by decide) (by decide) (.cons rfl (by decide) (by decide)
      (.cons rfl (by decide) (by decide) (.cons rfl (by decide) (by decide) .nil)))
  have delivered := every .dualInFlight [[0, 1], [2, 3], [4, 5], [6, 7]] 8
    [[0, 1], [2, 3], [4, 5], [6, 7]]
    [.pollRead 1, .turn true, .turn false, .pollRead 8, .turn true, .turn false, .turn false,
      .turn false, .turn false] outs
  revert delivered
  decide

end Rustfs.Ecstore
