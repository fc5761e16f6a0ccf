import Rustfs.Library.Runs
import Mathlib.Data.List.FinRange
import Mathlib.Logic.Function.Basic

/-!
# Stripe reads in lockstep

`ParallelReader::read_lockstep` and its demand-bound variant read one block of every engaged slot
for each stripe. Slots drop out, are hedged, reopened and engaged in the middle of an object; a step
of the machine here runs the code from one point where it waits to the next one. Which of the
running reads completes next is an event. Buffers, read costs, metrics and the contents of errors
are left out.
-/

namespace Rustfs.Ecstore.Lockstep

open Library List

section

variable {n : Nat}

/-- A block of the shard file of a slot. -/
structure Shard (n : Nat) where
  slot : Fin n
  block : Nat
  deriving DecidableEq

/-- A reader of a shard file: the block that it reads next, and whether it was opened. -/
structure Cursor (n : Nat) where
  next : Shard n
  opened : Bool
  deriving DecidableEq

/-- A reader that is opened by its first read. -/
def Cursor.deferred (slot : Fin n) : Cursor n := ⟨⟨slot, 0⟩, false⟩

def Cursor.moved (cursor : Cursor n) : Cursor n := ⟨⟨cursor.next.slot, cursor.next.block + 1⟩, true⟩

/-- The reopeners and stripe handles of the slots, each asked for a slot and a stripe. A handle
that is missing or refuses gives `none`; a cancelled read leaves its reader anywhere. -/
structure Sources (n : Nat) where
  hasReopener : Fin n → Bool
  reopen : Fin n → Nat → Option (Cursor n)
  advanceStripes : Fin n → Nat → Cursor n → Option (Cursor n)
  cancelled : Fin n → Nat → Cursor n
  reopen_aligned : ∀ slot stripe cursor, reopen slot stripe = some cursor →
    cursor.next = ⟨slot, stripe⟩
  advance_aligned : ∀ slot stripe cursor, advanceStripes slot stripe (.deferred slot) = some cursor →
    cursor.next = ⟨slot, stripe⟩

structure ParallelReader (n : Nat) where
  dataShards : Nat
  shardSize : Nat
  shardFileSize : Nat
  offset : Nat
  stripeIndex : Nat
  readers : Fin n → Option (Cursor n)
  engaged : Fin n → Bool
  hedgedReaders : Fin n → Bool

structure StripeReadState (n : Nat) where
  shards : Fin n → Option (Shard n)
  errs : Fin n → Bool

def StripeReadState.reset : StripeReadState n := ⟨fun _ => none, fun _ => false⟩

def StripeReadState.succeeded (state : StripeReadState n) : Nat :=
  (List.finRange n).countP fun slot => (state.shards slot).isSome

namespace ParallelReader

def dataSlots (self : ParallelReader n) : List (Fin n) := (List.finRange n).take self.dataShards

def paritySlots (self : ParallelReader n) : List (Fin n) := (List.finRange n).drop self.dataShards

def setReader (self : ParallelReader n) (slot : Fin n) (reader : Option (Cursor n)) : ParallelReader n :=
  { self with readers := Function.update self.readers slot reader }

def setEngaged (self : ParallelReader n) (slot : Fin n) (engaged : Bool) : ParallelReader n :=
  { self with engaged := Function.update self.engaged slot engaged }

@[simp]
theorem set_reader_same (self : ParallelReader n) (slot : Fin n) (reader : Option (Cursor n)) :
    (self.setReader slot reader).readers slot = reader := Function.update_self ..

variable {self : ParallelReader n}

theorem set_reader_other {slot other : Fin n} {reader : Option (Cursor n)}
    (different : other ≠ slot) : (self.setReader slot reader).readers other = self.readers other :=
  Function.update_of_ne different ..

@[simp]
theorem set_reader_engaged (self : ParallelReader n) (slot : Fin n) (reader : Option (Cursor n)) :
    (self.setReader slot reader).engaged = self.engaged := rfl

@[simp]
theorem set_engaged_same (self : ParallelReader n) (slot : Fin n) (engaged : Bool) :
    (self.setEngaged slot engaged).engaged slot = engaged := Function.update_self ..

theorem set_engaged_other {slot other : Fin n} {engaged : Bool}
    (different : other ≠ slot) : (self.setEngaged slot engaged).engaged other = self.engaged other :=
  Function.update_of_ne different ..

@[simp]
theorem set_engaged_readers (self : ParallelReader n) (slot : Fin n) (engaged : Bool) :
    (self.setEngaged slot engaged).readers = self.readers := rfl

theorem set_engaged_unchanged {slot : Fin n} {engaged : Bool}
    (same : self.engaged slot = engaged) : self.setEngaged slot engaged = self := by
  unfold setEngaged
  rw [← same, Function.update_eq_self]

def retire (self : ParallelReader n) (retired : Fin n → Bool) : ParallelReader n :=
  { self with readers := fun slot => if retired slot then none else self.readers slot }

theorem retire_readers (self : ParallelReader n) (retired : Fin n → Bool) (slot : Fin n) :
    (self.retire retired).readers slot = if retired slot then none else self.readers slot := rfl

def missingDataReaders (self : ParallelReader n) : Nat :=
  self.dataSlots.countP fun slot => (self.readers slot).isNone

def missingData (self : ParallelReader n) (state : StripeReadState n) : Nat :=
  self.dataSlots.countP fun slot => (state.shards slot).isNone

/-- The last stripe may be short. -/
def stripeShardSize (self : ParallelReader n) : Nat :=
  if self.shardFileSize < self.offset + self.shardSize then self.shardFileSize - self.offset
  else self.shardSize

/-- All data shards are there, or enough shards to reconstruct and verify. -/
def canFinish (self : ParallelReader n) (state : StripeReadState n) : Bool :=
  self.missingData state = 0 || self.dataShards < state.succeeded

/-- At the first stripe a reader that was not opened is aligned as it is. -/
def tryEngageParity (sources : Sources n) (self : ParallelReader n) (slot : Fin n) (stripe : Nat) :
    Bool × ParallelReader n :=
  if stripe = 0 then (true, self.setEngaged slot true)
  else
    match (self.readers slot).bind (sources.advanceStripes slot stripe) with
    | some cursor => (true, (self.setReader slot (some cursor)).setEngaged slot true)
    | none => (false, self.setReader slot none)

end ParallelReader

/-- How a read ends. A failed read leaves its reader anywhere. -/
inductive Outcome (n : Nat)
  | ok (shouldRetire : Bool)
  | err (left : Cursor n)

def Outcome.failed : Outcome n → Bool
  | .ok _ => false
  | .err _ => true

/-- The locals of `read_lockstep_demand_bound`; `sets` has the reader of every read in flight, so a
slot is active when it has one there. -/
structure Race (n : Nat) where
  sets : Fin n → Option (Cursor n)
  temporaryParity : Fin n → Bool
  attemptedParity : Fin n → Bool
  dataFailureSeen : Bool
  fallbackAdmitted : Bool
  hedged : Bool
  success : Nat
  retireReaders : List (Fin n)

def Race.launch (race : Race n) (slot : Fin n) (reader : Cursor n) (temporary : Bool) : Race n :=
  { race with
    sets := Function.update race.sets slot (some reader)
    temporaryParity := Function.update race.temporaryParity slot temporary }

/-- Where the code waits: for the reads in flight of the default mode, at the head of its loop
that looks for a substitute, for the read of a substitute, or for those of the demand-bound
mode. -/
inductive Phase (n : Nat)
  | idle
  | awaiting (sets : Fin n → Bool) (hedged : Bool) (retireReaders : List (Fin n))
  | substituting (retireReaders : List (Fin n))
  | substitute (slot : Fin n) (retireReaders : List (Fin n))
  | racing (race : Race n)

/-- `stripe` is the stripe that the state is for. -/
structure Machine (n : Nat) where
  reader : ParallelReader n
  state : StripeReadState n
  stripe : Nat
  phase : Phase n

inductive Event (n : Nat)
  | call (demandBound : Bool)
  | completed (slot : Fin n) (outcome : Outcome n)
  | hedgeElapsed
  | proceed

namespace Machine

def finish (machine : Machine n) (retireReaders : List (Fin n)) : Machine n :=
  { machine with
    reader := machine.reader.retire fun slot => decide (slot ∈ retireReaders)
    phase := .idle }

def engageParity (sources : Sources n) (stripe want : Nat) (count : Nat × ParallelReader n)
    (slot : Fin n) : Nat × ParallelReader n :=
  if want ≤ count.1 then count
  else if (count.2.readers slot).isSome && !count.2.engaged slot then
    match count.2.tryEngageParity sources slot stripe with
    | (true, self) => (count.1 + 1, self)
    | (false, self) => (count.1, self)
  else count

def engageUpFront (sources : Sources n) (stripe : Nat) (self : ParallelReader n) : ParallelReader n :=
  if self.missingDataReaders = 0 then self
  else
    let engaged := self.paritySlots.countP fun slot =>
      self.engaged slot && (self.readers slot).isSome
    (self.paritySlots.foldl (engageParity sources stripe (self.missingDataReaders + 1))
      (engaged, self)).2

def dropReads (sources : Sources n) (stripe : Nat) (sets : Fin n → Bool) (self : ParallelReader n) :
    ParallelReader n :=
  { self with
    readers := fun slot => if sets slot then some (sources.cancelled slot stripe) else self.readers slot }

/-- An engaged reader that has neither a shard nor an error when the hedge fires. -/
def isSlow (hedged : Bool) (self : ParallelReader n) (state : StripeReadState n) (slot : Fin n) : Bool :=
  hedged && self.engaged slot && (self.readers slot).isSome && (state.shards slot).isNone &&
    !state.errs slot

/-- The readers whose read is dropped are retired and may be reopened later. -/
def leave (sources : Sources n) (machine : Machine n) (sets : Fin n → Bool) (hedged : Bool)
    (retireReaders : List (Fin n)) : Machine n :=
  let dropped := dropReads sources machine.stripe sets machine.reader
  let slow := isSlow hedged dropped machine.state
  { machine with
    reader :=
      { dropped with
        hedgedReaders := fun slot =>
          if slow slot then sources.hasReopener slot
          else dropped.hedgedReaders slot }.retire fun slot => slow slot || decide (slot ∈ retireReaders)
    state := { machine.state with errs := fun slot => machine.state.errs slot || slow slot }
    phase := .substituting [] }

def await (sources : Sources n) (machine : Machine n) (sets : Fin n → Bool) (hedged : Bool)
    (retireReaders : List (Fin n)) : Machine n :=
  if (List.finRange n).any sets then { machine with phase := .awaiting sets hedged retireReaders }
  else leave sources machine sets hedged retireReaders

def startAwaiting (sources : Sources n) (machine : Machine n) : Machine n :=
  let reader := engageUpFront sources machine.stripe machine.reader
  await sources { machine with reader }
    (fun slot => reader.engaged slot && (reader.readers slot).isSome) false []

def record (machine : Machine n) (slot : Fin n) (cursor : Cursor n) (retireReaders : List (Fin n)) :
    Outcome n → Machine n × List (Fin n)
  | .ok _ =>
    ({ machine with
        reader := machine.reader.setReader slot (some cursor.moved)
        state := { machine.state with
          shards := Function.update machine.state.shards slot (some cursor.next) } }, retireReaders)
  | .err left =>
    ({ machine with
        reader := machine.reader.setReader slot (some left)
        state := { machine.state with errs := Function.update machine.state.errs slot true } },
      slot :: retireReaders)

def completedAwaiting (sources : Sources n) (machine : Machine n) (sets : Fin n → Bool) (hedged : Bool)
    (retireReaders : List (Fin n)) (slot : Fin n) (cursor : Cursor n) (outcome : Outcome n) : Machine n :=
  let (machine, retireReaders) := machine.record slot cursor retireReaders outcome
  let sets := Function.update sets slot false
  if hedged && machine.reader.canFinish machine.state then
    leave sources machine sets hedged retireReaders
  else await sources machine sets hedged retireReaders

def hedgeAwaiting (sources : Sources n) (machine : Machine n) (sets : Fin n → Bool)
    (retireReaders : List (Fin n)) : Machine n :=
  if machine.reader.canFinish machine.state then leave sources machine sets true retireReaders
  else { machine with phase := .awaiting sets true retireReaders }

/-- A turn of the loop that looks for a substitute. A hedged slot is reopened; its old stream is
never read again. -/
def seekSubstitute (sources : Sources n) (machine : Machine n) (retireReaders : List (Fin n)) : Machine n :=
  if machine.reader.canFinish machine.state then machine.finish retireReaders
  else
    let self := machine.reader
    match (self.paritySlots.find? fun slot => (self.readers slot).isSome && !self.engaged slot).or
        ((List.finRange n).find? self.hedgedReaders) with
    | none => machine.finish retireReaders
    | some slot =>
      if self.hedgedReaders slot then
        let reader := if sources.hasReopener slot then sources.reopen slot machine.stripe else none
        { machine with
          reader :=
            { self with
              hedgedReaders := Function.update self.hedgedReaders slot false }.setReader slot reader
          phase := if reader.isSome then .substitute slot retireReaders
            else .substituting retireReaders }
      else
        match self.tryEngageParity sources slot machine.stripe with
        | (true, self) => { machine with reader := self, phase := .substitute slot retireReaders }
        | (false, self) => { machine with reader := self, phase := .substituting retireReaders }

def maxDemandBoundParityInFlight : Nat := 4

def demandBoundParityAdmissionLimit (self : ParallelReader n) (state : StripeReadState n)
    (sets : Fin n → Option (Cursor n)) : Nat :=
  if self.missingData state = 0 then 0
  else
    let neededForVerification := self.dataShards + 1 - state.succeeded
    let desired := min (min (self.missingData state + 1) neededForVerification)
      maxDemandBoundParityInFlight
    desired - self.paritySlots.countP fun slot => (sets slot).isSome

/-- A turn of `launch_demand_bound_parity`. A disposable reader leaves the reserve of its slot
unopened. -/
def launchParity (sources : Sources n) (stripe maxNew : Nat) (disposable : Bool)
    (launch : Nat × Race n × ParallelReader n) (slot : Fin n) : Nat × Race n × ParallelReader n :=
  let (launched, race, self) := launch
  if maxNew ≤ launched || self.engaged slot || (self.readers slot).isNone ||
      (race.sets slot).isSome || race.attemptedParity slot then launch
  else
    let race := { race with attemptedParity := Function.update race.attemptedParity slot true }
    if disposable && sources.hasReopener slot then
      match sources.reopen slot stripe with
      | none => (launched, race, self.setReader slot none)
      | some reader => (launched + 1, race.launch slot reader true, self)
    else
      match self.tryEngageParity sources slot stripe with
      | (true, self) =>
        match self.readers slot with
        | none => (launched, race, self.setEngaged slot false)
        | some reader => (launched + 1, race.launch slot reader false, self.setReader slot none)
      | (false, self) =>
        if disposable || !sources.hasReopener slot then (launched, race, self)
        else
          match sources.reopen slot stripe with
          | none => (launched, race, self.setReader slot none)
          | some reader => (launched + 1, race.launch slot reader false, self.setEngaged slot true)

def launchDemandBoundParity (sources : Sources n) (stripe maxNew : Nat) (disposable : Bool)
    (race : Race n) (self : ParallelReader n) : Nat × Race n × ParallelReader n :=
  self.paritySlots.foldl (launchParity sources stripe maxNew disposable) (0, race, self)

/-- A launch within the admission limit, remembered when it launches a reader. -/
def admitParity (sources : Sources n) (disposable : Bool) (race : Race n) (machine : Machine n) :
    Nat × Race n × Machine n :=
  let (launched, race, reader) := launchDemandBoundParity sources machine.stripe
    (demandBoundParityAdmissionLimit machine.reader machine.state race.sets) disposable race
    machine.reader
  (launched, { race with fallbackAdmitted := race.fallbackAdmitted || decide (0 < launched) },
    { machine with reader })

/-- Reads in flight are dropped: a disposable one leaves the reserve of its slot, any other one
retires its slot. -/
def finishRacing (race : Race n) (machine : Machine n) : Machine n :=
  let active (slot : Fin n) : Bool := (race.sets slot).isSome
  let lost (slot : Fin n) : Bool := active slot && !race.temporaryParity slot
  { machine with
    reader :=
      { machine.reader with
        engaged := fun slot =>
          if active slot && race.temporaryParity slot then false
          else machine.reader.engaged slot }.retire fun slot =>
            lost slot || decide (slot ∈ race.retireReaders)
    state :=
      { machine.state with
        errs := fun slot => machine.state.errs slot ||
          (lost slot && (machine.state.shards slot).isNone) }
    phase := .idle }

/-- The head of the loop: with no read in flight, parity is asked for once more. -/
def race (sources : Sources n) (race : Race n) (machine : Machine n) : Machine n :=
  if (List.finRange n).any fun slot => (race.sets slot).isSome then
    { machine with phase := .racing race }
  else
    let race := { race with
      dataFailureSeen := race.dataFailureSeen || machine.reader.dataSlots.any machine.state.errs }
    if machine.reader.missingData machine.state ≠ 0 && race.success ≤ machine.reader.dataShards then
      let (launched, race, machine) := admitParity sources (!race.dataFailureSeen) race machine
      if 0 < launched then { machine with phase := .racing race } else finishRacing race machine
    else finishRacing race machine

def startRacing (sources : Sources n) (machine : Machine n) : Machine n :=
  let self := machine.reader
  let start : Race n :=
    { sets := fun slot => if self.engaged slot then self.readers slot else none
      temporaryParity := fun _ => false
      attemptedParity := fun _ => false
      dataFailureSeen := decide (0 < self.missingDataReaders)
      fallbackAdmitted := false
      hedged := false
      success := 0
      retireReaders := [] }
  let emptied := self.retire self.engaged
  if self.missingDataReaders = 0 then race sources start { machine with reader := emptied }
  else
    let want := min (self.missingDataReaders + 1) maxDemandBoundParityInFlight
    let (launched, start, reader) :=
      launchDemandBoundParity sources machine.stripe want false start emptied
    race sources { start with fallbackAdmitted := decide (0 < launched) } { machine with reader }

/-- What a read that ended leaves in its slot and in the race. -/
def recordRacing (slot : Fin n) (cursor : Cursor n) (running : Race n) (machine : Machine n) :
    Outcome n → Race n × Machine n
  | .ok shouldRetire =>
    let running := { running with
      sets := Function.update running.sets slot none
      success := running.success + 1 }
    let state := { machine.state with
      shards := Function.update machine.state.shards slot (some cursor.next) }
    let reader :=
      if running.temporaryParity slot then machine.reader.setEngaged slot false
      else if shouldRetire then machine.reader
      else machine.reader.setReader slot (some cursor.moved)
    (running, { machine with reader, state })
  | .err _ =>
    let running := { running with
      sets := Function.update running.sets slot none
      dataFailureSeen := running.dataFailureSeen || decide (slot.val < machine.reader.dataShards) }
    if running.temporaryParity slot then
      (running, { machine with reader := machine.reader.setEngaged slot false })
    else
      ({ running with retireReaders := slot :: running.retireReaders },
        { machine with
          reader := machine.reader.setReader slot none
          state := { machine.state with errs := Function.update machine.state.errs slot true } })

def completedRacing (sources : Sources n) (slot : Fin n) (cursor : Cursor n) (outcome : Outcome n)
    (running : Race n) (machine : Machine n) : Machine n :=
  let (running, machine) := recordRacing slot cursor running machine outcome
  let (running, machine) :=
    if machine.reader.missingData machine.state ≠ 0 && running.success ≤ machine.reader.dataShards &&
        (outcome.failed || running.fallbackAdmitted) then
      (admitParity sources (!running.dataFailureSeen) running machine).2
    else (running, machine)
  if machine.reader.missingData machine.state = 0 ||
      (running.fallbackAdmitted && machine.reader.dataShards < machine.state.succeeded) then
    finishRacing running machine
  else race sources running machine

def hedgeRacing (sources : Sources n) (running : Race n) (machine : Machine n) : Machine n :=
  let running := { running with hedged := true }
  if machine.reader.missingData machine.state = 0 then race sources running machine
  else
    let (_, running, machine) := admitParity sources true running machine
    race sources running machine

def call (sources : Sources n) (demandBound : Bool) (machine : Machine n) : Machine n :=
  let self := machine.reader
  let machine := { machine with state := .reset }
  if self.stripeShardSize = 0 then machine
  else
    let machine := { machine with
      reader :=
        { self with
          offset := self.offset + self.stripeShardSize
          stripeIndex := self.stripeIndex + 1 }
      stripe := self.stripeIndex }
    if demandBound then startRacing sources machine else startAwaiting sources machine

/-- The code runs on when a read that it waits for ends or its hedge timer fires. -/
def step (sources : Sources n) (machine : Machine n) (event : Event n) : Option (Machine n) :=
  match machine.phase, event with
  | .idle, .call demandBound => some (machine.call sources demandBound)
  | .awaiting sets hedged retireReaders, .completed slot outcome =>
    if sets slot then
      (machine.reader.readers slot).map fun cursor =>
        machine.completedAwaiting sources sets hedged retireReaders slot cursor outcome
    else none
  | .awaiting sets false retireReaders, .hedgeElapsed =>
    some (machine.hedgeAwaiting sources sets retireReaders)
  | .substituting retireReaders, .proceed => some (machine.seekSubstitute sources retireReaders)
  | .substitute slot retireReaders, .completed ended outcome =>
    if ended = slot then
      (machine.reader.readers slot).map fun cursor =>
        let (machine, retireReaders) := machine.record slot cursor retireReaders outcome
        { machine with phase := .substituting retireReaders }
    else none
  | .racing running, .completed slot outcome =>
    (running.sets slot).map fun cursor =>
      machine.completedRacing sources slot cursor outcome running
  | .racing running, .hedgeElapsed =>
    if running.hedged then none else some (machine.hedgeRacing sources running)
  | _, _ => none

end Machine

end

variable {n : Nat}

def At (shard : Shard n) (reader : Option (Cursor n)) : Prop :=
  ∀ cursor, reader = some cursor → cursor.next = shard

theorem at_none (shard : Shard n) : At shard none := fun _ vacant => by cases vacant

theorem at_some {shard : Shard n} {cursor : Cursor n} (next : cursor.next = shard) :
    At shard (some cursor) := by
  intro other same
  rw [← Option.some.inj same]
  exact next

theorem at_moved {slot : Fin n} {stripe : Nat} {cursor : Cursor n} (next : cursor.next = ⟨slot, stripe⟩) :
    At ⟨slot, stripe + 1⟩ (some cursor.moved) := by
  apply at_some
  rw [Cursor.moved, next]

/-- A slot that is not engaged has an unopened reader or none. -/
structure Reserved (reader : ParallelReader n) : Prop where
  deferred : ∀ slot, reader.engaged slot = false →
    reader.readers slot = none ∨ reader.readers slot = some (.deferred slot)
  hedged : ∀ slot, reader.hedgedReaders slot = true → reader.engaged slot = true

/-- Where the readers of the engaged slots stand while the reads of `sets` are in flight. -/
structure Reading (stripe : Nat) (reader : ParallelReader n) (state : StripeReadState n)
    (sets : Fin n → Bool) (retireReaders : List (Fin n)) : Prop where
  index : reader.stripeIndex = stripe + 1
  pending : ∀ slot, sets slot = true → reader.engaged slot = true ∧
    At ⟨slot, stripe⟩ (reader.readers slot) ∧ state.shards slot = none ∧ state.errs slot = false
  others : ∀ slot, sets slot = false → reader.engaged slot = true →
    slot ∈ retireReaders ∨ At ⟨slot, stripe + 1⟩ (reader.readers slot)

/-- The readers in flight are at the stripe; those that have come back are behind it. -/
structure Racing (stripe : Nat) (sets : Fin n → Option (Cursor n)) (temporary : Fin n → Bool)
    (reader : ParallelReader n) : Prop where
  index : reader.stripeIndex = stripe + 1
  flying : ∀ slot, At ⟨slot, stripe⟩ (sets slot)
  persistent : ∀ slot, (sets slot).isSome = true → temporary slot = false →
    reader.engaged slot = true ∧ reader.readers slot = none
  disposable : ∀ slot, (sets slot).isSome = true → temporary slot = true →
    reader.engaged slot = false
  landed : ∀ slot, sets slot = none → reader.engaged slot = true →
    At ⟨slot, stripe + 1⟩ (reader.readers slot)

def Machine.Standing (machine : Machine n) : Prop :=
  match machine.phase with
  | .idle => ∀ slot, machine.reader.engaged slot = true →
      At ⟨slot, machine.reader.stripeIndex⟩ (machine.reader.readers slot)
  | .awaiting sets _ retireReaders =>
    Reading machine.stripe machine.reader machine.state sets retireReaders
  | .substituting retireReaders =>
    Reading machine.stripe machine.reader machine.state (fun _ => false) retireReaders
  | .substitute slot retireReaders =>
    machine.reader.engaged slot = true ∧
    At ⟨slot, machine.stripe⟩ (machine.reader.readers slot) ∧
    machine.reader.stripeIndex = machine.stripe + 1 ∧
    ∀ other, other ≠ slot → machine.reader.engaged other = true →
      other ∈ retireReaders ∨ At ⟨other, machine.stripe + 1⟩ (machine.reader.readers other)
  | .racing race => Racing machine.stripe race.sets race.temporaryParity machine.reader

structure Aligned (machine : Machine n) : Prop where
  shards : ∀ slot shard, machine.state.shards slot = some shard → shard = ⟨slot, machine.stripe⟩
  reserved : Reserved machine.reader
  standing : machine.Standing

open ParallelReader Machine

section Reserve

variable {self : ParallelReader n} {slot : Fin n}

theorem reserved_set_none (reserved : Reserved self) : Reserved (self.setReader slot none) := by
  refine ⟨fun other unengaged => ?_, reserved.hedged⟩
  by_cases same : other = slot
  · rw [same, set_reader_same]
    exact .inl rfl
  · rw [set_reader_other same]
    exact reserved.deferred other unengaged

theorem reserved_set_engaged (reserved : Reserved self) (engaged : self.engaged slot = true)
    (reader : Option (Cursor n)) : Reserved (self.setReader slot reader) := by
  refine ⟨fun other unengaged => ?_, reserved.hedged⟩
  rw [set_reader_engaged] at unengaged
  have different : other ≠ slot := by
    rintro rfl
    rw [unengaged] at engaged
    cases engaged
  rw [set_reader_other different]
  exact reserved.deferred other unengaged

theorem reserved_engage (reserved : Reserved self) (reader : Option (Cursor n)) :
    Reserved ((self.setReader slot reader).setEngaged slot true) := by
  constructor
  · intro other unengaged
    have different : other ≠ slot := by
      rintro rfl
      rw [set_engaged_same] at unengaged
      cases unengaged
    rw [set_engaged_other different] at unengaged
    rw [set_engaged_readers, set_reader_other different]
    exact reserved.deferred other unengaged
  · intro other isHedged
    by_cases same : other = slot
    · rw [same, set_engaged_same]
    · rw [set_engaged_other same]
      exact reserved.hedged other isHedged

theorem reserved_retire (reserved : Reserved self) (retired : Fin n → Bool) :
    Reserved (self.retire retired) := by
  refine ⟨fun other unengaged => ?_, reserved.hedged⟩
  rw [retire_readers]
  split
  · exact .inl rfl
  · exact reserved.deferred other unengaged

theorem try_engage_cases (sources : Sources n) (stripe : Nat) (reserved : Reserved self)
    (unengaged : self.engaged slot = false) (present : (self.readers slot).isSome = true) :
    (∃ cursor, cursor.next = ⟨slot, stripe⟩ ∧ self.tryEngageParity sources slot stripe =
      (true, (self.setReader slot (some cursor)).setEngaged slot true)) ∨
    self.tryEngageParity sources slot stripe = (false, self.setReader slot none) := by
  have reserve : self.readers slot = some (.deferred slot) := by
    rcases reserved.deferred slot unengaged with vacant | filled
    · rw [vacant] at present
      cases present
    · exact filled
  unfold tryEngageParity
  split
  · rename_i first
    refine .inl ⟨.deferred slot, by rw [first]; rfl, ?_⟩
    have same : self.setReader slot (some (.deferred slot)) = self := by
      unfold setReader
      rw [← reserve, Function.update_eq_self]
    rw [same]
  · rw [reserve, Option.bind_some]
    cases advanced : sources.advanceStripes slot stripe (.deferred slot) with
    | none => exact .inr rfl
    | some cursor => exact .inl ⟨cursor, sources.advance_aligned slot stripe cursor advanced, rfl⟩

end Reserve

/-- Before the reads of a stripe: every engaged slot stands at it. -/
structure Ready (stripe : Nat) (reader : ParallelReader n) : Prop where
  index : reader.stripeIndex = stripe + 1
  reserved : Reserved reader
  engaged : ∀ slot, reader.engaged slot = true → At ⟨slot, stripe⟩ (reader.readers slot)

section Default

variable {sources : Sources n} {stripe want : Nat} {self : ParallelReader n} {slot : Fin n}
  {machine : Machine n} {sets : Fin n → Bool} {hedged : Bool} {retireReaders : List (Fin n)}
  {cursor : Cursor n}

theorem ready_engage (ready : Ready stripe self) (next : cursor.next = ⟨slot, stripe⟩) :
    Ready stripe ((self.setReader slot (some cursor)).setEngaged slot true) := by
  refine ⟨ready.index, reserved_engage ready.reserved _, fun other isEngaged => ?_⟩
  rw [set_engaged_readers]
  by_cases same : other = slot
  · rw [same, set_reader_same]
    exact at_some next
  · rw [set_engaged_other same] at isEngaged
    rw [set_reader_other same]
    exact ready.engaged other isEngaged

theorem ready_set_none (ready : Ready stripe self) : Ready stripe (self.setReader slot none) := by
  refine ⟨ready.index, reserved_set_none ready.reserved, fun other isEngaged => ?_⟩
  by_cases same : other = slot
  · rw [same, set_reader_same]
    exact at_none _
  · rw [set_reader_other same]
    exact ready.engaged other isEngaged

theorem engage_parity_ready {count : Nat × ParallelReader n} (ready : Ready stripe count.2) :
    Ready stripe (Machine.engageParity sources stripe want count slot).2 := by
  unfold engageParity
  split
  · exact ready
  split
  · rename_i reserve
    rw [Bool.and_eq_true, Bool.not_eq_true'] at reserve
    rcases try_engage_cases sources stripe ready.reserved reserve.2 reserve.1 with
      ⟨cursor, next, engages⟩ | refuses
    · rw [engages]
      exact ready_engage ready next
    · rw [refuses]
      exact ready_set_none ready
  · exact ready

theorem engage_all_ready (slots : List (Fin n)) {count : Nat × ParallelReader n}
    (ready : Ready stripe count.2) :
    Ready stripe (slots.foldl (Machine.engageParity sources stripe want) count).2 := by
  induction slots generalizing count with
  | nil => exact ready
  | cons slot slots ih => exact ih (engage_parity_ready ready)

theorem engage_up_front_ready (ready : Ready stripe self) :
    Ready stripe (Machine.engageUpFront sources stripe self) := by
  unfold engageUpFront
  split
  · exact ready
  · exact engage_all_ready _ ready

theorem left_standing (reading : Reading machine.stripe machine.reader machine.state sets retireReaders)
    (dropped : hedged = true ∨ ∀ slot, sets slot = false)
    (isEngaged : machine.reader.engaged slot = true) :
    At ⟨slot, machine.stripe + 1⟩
      ((machine.leave sources sets hedged retireReaders).reader.readers slot) := by
  have left : (machine.leave sources sets hedged retireReaders).reader.readers slot =
      if isSlow hedged (dropReads sources machine.stripe sets machine.reader)
          machine.state slot || decide (slot ∈ retireReaders) then none
      else if sets slot then some (sources.cancelled slot machine.stripe)
      else machine.reader.readers slot := rfl
  rw [left]
  cases isSet : sets slot with
  | true =>
    have isHedged : hedged = true := dropped.resolve_right fun vacant => by
      rw [vacant slot] at isSet
      cases isSet
    obtain ⟨_, _, noShard, noError⟩ := reading.pending slot isSet
    have slow : isSlow hedged
        (dropReads sources machine.stripe sets machine.reader) machine.state slot = true := by
      simp [isSlow, dropReads, isHedged, isEngaged, isSet, noShard, noError]
    rw [slow, Bool.true_or, if_pos rfl]
    exact at_none _
  | false =>
    split
    · exact at_none _
    · rename_i stays
      apply (reading.others slot isSet isEngaged).resolve_left
      intro member
      exact stays (by simp [member])

section

variable (shards : ∀ slot shard, machine.state.shards slot = some shard → shard = ⟨slot, machine.stripe⟩)
  (reserved : Reserved machine.reader)
  (reading : Reading machine.stripe machine.reader machine.state sets retireReaders)

include shards reserved reading

theorem leave_aligned (dropped : hedged = true ∨ ∀ slot, sets slot = false) :
    Aligned (machine.leave sources sets hedged retireReaders) := by
  refine ⟨shards, reserved_retire ⟨?_, ?_⟩ _, reading.index, ?_, ?_⟩
  · intro slot unengaged
    change (if sets slot then _ else machine.reader.readers slot) = none ∨
      (if sets slot then _ else machine.reader.readers slot) = _
    cases isSet : sets slot with
    | true =>
      have engaged := (reading.pending slot isSet).1
      rw [show machine.reader.engaged slot = false from unengaged] at engaged
      cases engaged
    | false => exact reserved.deferred slot unengaged
  · intro slot isHedged
    dsimp only at isHedged
    split at isHedged
    · rename_i slow
      unfold isSlow at slow
      simp only [Bool.and_eq_true] at slow
      exact slow.1.1.1.2
    · exact reserved.hedged slot isHedged
  · intro slot set
    cases set
  · intro slot _ isEngaged
    exact .inr (@left_standing n sources slot machine sets hedged retireReaders reading dropped isEngaged)

theorem await_aligned : Aligned (machine.await sources sets hedged retireReaders) := by
  unfold await
  split
  · exact ⟨shards, reserved, reading⟩
  · rename_i vacant
    refine leave_aligned shards reserved reading (.inr fun slot => ?_)
    rw [Bool.eq_false_iff]
    intro isSet
    exact vacant (any_eq_true.2 ⟨slot, mem_finRange slot, isSet⟩)

end

theorem start_awaiting_aligned (ready : Ready machine.stripe machine.reader)
    (fresh : machine.state = .reset) : Aligned (machine.startAwaiting sources) := by
  have engaged := @engage_up_front_ready n sources _ _ ready
  apply await_aligned
  · rw [fresh]
    intro slot shard vacant
    cases vacant
  · exact engaged.reserved
  · refine ⟨engaged.index, fun slot isSet => ?_, fun slot unset isEngaged => .inr ?_⟩
    · rw [Bool.and_eq_true] at isSet
      refine ⟨isSet.1, engaged.engaged slot isSet.1, ?_, ?_⟩
      all_goals
        rw [fresh]
        rfl
    · rw [isEngaged, Bool.true_and] at unset
      intro cursor isReader
      rw [isReader] at unset
      cases unset

theorem record_shards (shards : ∀ slot shard, machine.state.shards slot = some shard →
      shard = ⟨slot, machine.stripe⟩) {cursor : Cursor n} (next : cursor.next = ⟨slot, machine.stripe⟩)
    (outcome : Outcome n) (other : Fin n) (shard : Shard n)
    (isShard : (machine.record slot cursor retireReaders outcome).1.state.shards other = some shard) :
    shard = ⟨other, machine.stripe⟩ := by
  cases outcome with
  | ok _ =>
    change Function.update machine.state.shards slot (some cursor.next) other = some shard at isShard
    by_cases same : other = slot
    · rw [same, Function.update_self] at isShard
      rw [← Option.some.inj isShard, next, same]
    · rw [Function.update_of_ne same] at isShard
      exact shards other shard isShard
  | err _ => exact shards other shard isShard

theorem record_others (next : cursor.next = ⟨slot, machine.stripe⟩)
    (outcome : Outcome n) {other : Fin n} (stands : other ≠ slot →
      other ∈ retireReaders ∨ At ⟨other, machine.stripe + 1⟩ (machine.reader.readers other)) :
    other ∈ (machine.record slot cursor retireReaders outcome).2 ∨
      At ⟨other, machine.stripe + 1⟩
        ((machine.record slot cursor retireReaders outcome).1.reader.readers other) := by
  cases outcome with
  | ok _ =>
    change _ ∨ At _ ((machine.reader.setReader slot (some cursor.moved)).readers other)
    by_cases same : other = slot
    · rw [same, set_reader_same]
      exact .inr (at_moved next)
    · rw [set_reader_other same]
      exact stands same
  | err left =>
    change other ∈ slot :: retireReaders ∨
      At _ ((machine.reader.setReader slot (some left)).readers other)
    by_cases same : other = slot
    · exact .inl (mem_cons.2 (.inl same))
    · rw [set_reader_other same]
      exact (stands same).imp_left (mem_cons_of_mem slot)

theorem record_reserved (reserved : Reserved machine.reader) (isEngaged : machine.reader.engaged slot = true)
    (cursor : Cursor n) (outcome : Outcome n) :
    Reserved (machine.record slot cursor retireReaders outcome).1.reader := by
  cases outcome with
  | ok _ | err _ => exact reserved_set_engaged reserved isEngaged _

theorem record_frame (cursor : Cursor n) (outcome : Outcome n) :
    (machine.record slot cursor retireReaders outcome).1.stripe = machine.stripe ∧
      (machine.record slot cursor retireReaders outcome).1.reader.stripeIndex =
        machine.reader.stripeIndex ∧
      (machine.record slot cursor retireReaders outcome).1.reader.engaged = machine.reader.engaged := by
  cases outcome with
  | ok _ | err _ => exact ⟨rfl, rfl, rfl⟩

theorem record_other {cursor : Cursor n} (outcome : Outcome n) {other : Fin n} (different : other ≠ slot) :
    let recorded := (machine.record slot cursor retireReaders outcome).1
    recorded.reader.readers other = machine.reader.readers other ∧
      recorded.state.shards other = machine.state.shards other ∧
      recorded.state.errs other = machine.state.errs other := by
  cases outcome with
  | ok _ =>
    exact ⟨set_reader_other different, Function.update_of_ne different .., rfl⟩
  | err _ =>
    exact ⟨set_reader_other different, rfl, Function.update_of_ne different ..⟩

section

variable (aligned : Aligned machine)

include aligned

theorem completed_awaiting_aligned
    (reading : Reading machine.stripe machine.reader machine.state sets retireReaders)
    (isSet : sets slot = true) (isReader : machine.reader.readers slot = some cursor)
    (outcome : Outcome n) :
    Aligned (machine.completedAwaiting sources sets hedged retireReaders slot cursor outcome) := by
  obtain ⟨isEngaged, standing, _⟩ := reading.pending slot isSet
  have next := standing cursor isReader
  obtain ⟨stripe, index, engaged⟩ := @record_frame n slot machine retireReaders cursor outcome
  have shards := @record_shards n slot machine retireReaders aligned.shards cursor next outcome
  have reserved := @record_reserved n slot machine retireReaders aligned.reserved isEngaged cursor outcome
  have left : Reading (machine.record slot cursor retireReaders outcome).1.stripe
      (machine.record slot cursor retireReaders outcome).1.reader
      (machine.record slot cursor retireReaders outcome).1.state
      (Function.update sets slot false) (machine.record slot cursor retireReaders outcome).2 := by
    rw [stripe]
    refine ⟨index.trans reading.index, fun other isOther => ?_, fun other unset isEngaged => ?_⟩
    · have different : other ≠ slot := by
        rintro rfl
        rw [Function.update_self] at isOther
        cases isOther
      rw [Function.update_of_ne different] at isOther
      obtain ⟨reader, shard, error⟩ := @record_other n slot machine retireReaders cursor outcome other different
      rw [engaged, reader, shard, error]
      exact reading.pending other isOther
    · rw [engaged] at isEngaged
      apply record_others next outcome
      intro different
      rw [Function.update_of_ne different] at unset
      exact reading.others other unset isEngaged
  rw [← stripe] at shards
  unfold completedAwaiting
  dsimp only
  split
  · rename_i finished
    rw [Bool.and_eq_true] at finished
    exact leave_aligned shards reserved left (.inl finished.1)
  · exact await_aligned shards reserved left

theorem hedge_awaiting_aligned
    (reading : Reading machine.stripe machine.reader machine.state sets retireReaders) :
    Aligned (machine.hedgeAwaiting sources sets retireReaders) := by
  unfold hedgeAwaiting
  split
  · exact leave_aligned aligned.shards aligned.reserved reading (.inl rfl)
  · exact ⟨aligned.shards, aligned.reserved, reading⟩

theorem finish_aligned
    (reading : Reading machine.stripe machine.reader machine.state (fun _ => false) retireReaders) :
    Aligned (machine.finish retireReaders) := by
  refine ⟨aligned.shards, reserved_retire aligned.reserved _, fun slot isEngaged => ?_⟩
  change At ⟨slot, machine.reader.stripeIndex⟩ ((machine.reader.retire _).readers slot)
  rw [retire_readers, reading.index]
  split
  · exact at_none _
  · rename_i stays
    apply (reading.others slot rfl isEngaged).resolve_left
    exact fun member => stays (decide_eq_true member)

theorem reopened_aligned
    (reading : Reading machine.stripe machine.reader machine.state (fun _ => false) retireReaders)
    (isHedged : machine.reader.hedgedReaders slot = true) {reader : Option (Cursor n)}
    (next : At ⟨slot, machine.stripe⟩ reader) :
    Aligned { machine with
      reader :=
        { machine.reader with
          hedgedReaders := Function.update machine.reader.hedgedReaders slot false }.setReader slot reader
      phase := if reader.isSome then .substitute slot retireReaders
        else .substituting retireReaders } := by
  have isEngaged := aligned.reserved.hedged slot isHedged
  have unhedged : Reserved { machine.reader with
      hedgedReaders := Function.update machine.reader.hedgedReaders slot false } := by
    refine ⟨aligned.reserved.deferred, fun other otherHedged => ?_⟩
    by_cases same : other = slot
    · rw [same]
      exact isEngaged
    · apply aligned.reserved.hedged other
      exact (Function.update_of_ne same ..).symm.trans otherHedged
  refine ⟨aligned.shards, reserved_set_engaged unhedged isEngaged reader, ?_⟩
  have others : ∀ other, other ≠ slot → machine.reader.engaged other = true →
      other ∈ retireReaders ∨ At ⟨other, machine.stripe + 1⟩
        (({ machine.reader with
          hedgedReaders := Function.update machine.reader.hedgedReaders slot false } :
            ParallelReader n).setReader slot reader |>.readers other) := by
    intro other different otherEngaged
    rw [set_reader_other different]
    exact reading.others other rfl otherEngaged
  cases reader with
  | some cursor =>
    refine ⟨isEngaged, ?_, reading.index, others⟩
    rw [set_reader_same]
    exact next
  | none =>
    refine ⟨reading.index, fun other set => (by cases set), fun other _ otherEngaged => ?_⟩
    by_cases same : other = slot
    · rw [same, set_reader_same]
      exact .inr (at_none _)
    · exact others other same otherEngaged

theorem engaged_aligned
    (reading : Reading machine.stripe machine.reader machine.state (fun _ => false) retireReaders)
    (next : cursor.next = ⟨slot, machine.stripe⟩) :
    Aligned { machine with
      reader := (machine.reader.setReader slot (some cursor)).setEngaged slot true
      phase := .substitute slot retireReaders } := by
  refine ⟨aligned.shards, reserved_engage aligned.reserved _, set_engaged_same _ _ _, ?_,
    reading.index, fun other different otherEngaged => ?_⟩
  · rw [set_engaged_readers, set_reader_same]
    exact at_some next
  · rw [set_engaged_other different] at otherEngaged
    rw [set_engaged_readers, set_reader_other different]
    exact reading.others other rfl otherEngaged

theorem refused_aligned
    (reading : Reading machine.stripe machine.reader machine.state (fun _ => false) retireReaders) :
    Aligned { machine with
      reader := machine.reader.setReader slot none
      phase := .substituting retireReaders } := by
  refine ⟨aligned.shards, reserved_set_none aligned.reserved, reading.index,
    fun other set => (by cases set), fun other _ otherEngaged => ?_⟩
  by_cases same : other = slot
  · rw [same, set_reader_same]
    exact .inr (at_none _)
  · rw [set_reader_other same]
    exact reading.others other rfl otherEngaged

theorem seek_substitute_aligned
    (reading : Reading machine.stripe machine.reader machine.state (fun _ => false) retireReaders) :
    Aligned (machine.seekSubstitute sources retireReaders) := by
  unfold seekSubstitute
  split
  · exact finish_aligned aligned reading
  dsimp only
  split
  · exact finish_aligned aligned reading
  rename_i slot found
  split
  · rename_i isHedged
    apply reopened_aligned aligned reading isHedged
    split
    · exact fun cursor isReader => sources.reopen_aligned slot machine.stripe cursor isReader
    · exact at_none _
  · rename_i notHedged
    have reserve : (machine.reader.readers slot).isSome = true ∧ machine.reader.engaged slot = false := by
      rcases Option.or_eq_some_iff.1 found with first | ⟨_, second⟩
      · have both := find?_some first
        rwa [Bool.and_eq_true, Bool.not_eq_true'] at both
      · exact absurd (find?_some second) notHedged
    rcases try_engage_cases sources machine.stripe aligned.reserved reserve.2 reserve.1 with
      ⟨cursor, next, engages⟩ | refuses
    · rw [engages]
      exact engaged_aligned aligned reading next
    · rw [refuses]
      exact refused_aligned aligned reading

theorem completed_substitute_aligned (substitute : machine.phase = .substitute slot retireReaders)
    (isReader : machine.reader.readers slot = some cursor) (outcome : Outcome n) :
    Aligned { (machine.record slot cursor retireReaders outcome).1 with
      phase := .substituting (machine.record slot cursor retireReaders outcome).2 } := by
  have standing := aligned.standing
  unfold Machine.Standing at standing
  rw [substitute] at standing
  obtain ⟨isEngaged, here, index, others⟩ := standing
  have next := here cursor isReader
  obtain ⟨stripe, sameIndex, engaged⟩ := @record_frame n slot machine retireReaders cursor outcome
  have shards := @record_shards n slot machine retireReaders aligned.shards cursor next outcome
  rw [← stripe] at shards
  refine ⟨shards, record_reserved aligned.reserved isEngaged cursor outcome, ?_⟩
  dsimp only
  rw [stripe]
  refine ⟨sameIndex.trans index, fun other set => (by cases set), fun other _ otherEngaged => ?_⟩
  rw [engaged] at otherEngaged
  exact record_others next outcome fun different => others other different otherEngaged

end

end Default

section DemandBound

variable {sources : Sources n} {stripe maxNew : Nat} {disposable : Bool} {self : ParallelReader n}
  {slot : Fin n} {sets : Fin n → Option (Cursor n)} {temporary : Fin n → Bool} {running : Race n}
  {machine : Machine n} {cursor : Cursor n}

theorem racing_set_none (racing : Racing stripe sets temporary self) :
    Racing stripe sets temporary (self.setReader slot none) := by
  refine ⟨racing.index, racing.flying, fun other isSome isKept => ?_, racing.disposable,
    fun other isNone isEngaged => ?_⟩
  · obtain ⟨isEngaged, taken⟩ := racing.persistent other isSome isKept
    by_cases same : other = slot
    · rw [same] at isEngaged ⊢
      exact ⟨isEngaged, set_reader_same _ _ _⟩
    · rw [set_reader_other same]
      exact ⟨isEngaged, taken⟩
  · by_cases same : other = slot
    · rw [same, set_reader_same]
      exact at_none _
    · rw [set_reader_other same]
      exact racing.landed other isNone isEngaged

section

variable (racing : Racing stripe sets temporary self) (next : cursor.next = ⟨slot, stripe⟩)

include racing next

theorem flying_launched (other : Fin n) :
    At ⟨other, stripe⟩ (Function.update sets slot (some cursor) other) := by
  by_cases same : other = slot
  · rw [same, Function.update_self]
    exact at_some next
  · rw [Function.update_of_ne same]
    exact racing.flying other

theorem racing_disposable (unengaged : self.engaged slot = false) :
    Racing stripe (Function.update sets slot (some cursor)) (Function.update temporary slot true) self := by
  refine ⟨racing.index, flying_launched racing next, fun other isSome isKept => ?_,
    fun other isSome isTemporary => ?_, fun other isNone isEngaged => ?_⟩
  · have different : other ≠ slot := by
      rintro rfl
      rw [Function.update_self] at isKept
      cases isKept
    rw [Function.update_of_ne different] at isSome isKept
    exact racing.persistent other isSome isKept
  · by_cases same : other = slot
    · rw [same]
      exact unengaged
    · rw [Function.update_of_ne same] at isSome isTemporary
      exact racing.disposable other isSome isTemporary
  · have different : other ≠ slot := by
      rintro rfl
      rw [Function.update_self] at isNone
      cases isNone
    rw [Function.update_of_ne different] at isNone
    exact racing.landed other isNone isEngaged

theorem racing_persistent {after : ParallelReader n}
    (index : after.stripeIndex = self.stripeIndex) (isEngaged : after.engaged slot = true)
    (taken : after.readers slot = none) (others : ∀ other, other ≠ slot →
      after.engaged other = self.engaged other ∧ after.readers other = self.readers other) :
    Racing stripe (Function.update sets slot (some cursor)) (Function.update temporary slot false)
      after := by
  refine ⟨index.trans racing.index, flying_launched racing next, fun other isSome isKept => ?_,
    fun other isSome isTemporary => ?_, fun other isNone otherEngaged => ?_⟩
  · by_cases same : other = slot
    · rw [same]
      exact ⟨isEngaged, taken⟩
    · rw [Function.update_of_ne same] at isSome isKept
      rw [(others other same).1, (others other same).2]
      exact racing.persistent other isSome isKept
  · have different : other ≠ slot := by
      rintro rfl
      rw [Function.update_self] at isTemporary
      cases isTemporary
    rw [Function.update_of_ne different] at isSome isTemporary
    rw [(others other different).1]
    exact racing.disposable other isSome isTemporary
  · have different : other ≠ slot := by
      rintro rfl
      rw [Function.update_self] at isNone
      cases isNone
    rw [Function.update_of_ne different] at isNone
    rw [(others other different).1] at otherEngaged
    rw [(others other different).2]
    exact racing.landed other isNone otherEngaged

end

def Launching (stripe : Nat) (launch : Nat × Race n × ParallelReader n) : Prop :=
  Reserved launch.2.2 ∧ Racing stripe launch.2.1.sets launch.2.1.temporaryParity launch.2.2

theorem launch_parity_keeps {launch : Nat × Race n × ParallelReader n}
    (launching : Launching stripe launch) :
    Launching stripe (Machine.launchParity sources stripe maxNew disposable launch slot) := by
  obtain ⟨launched, race, self⟩ := launch
  obtain ⟨reserved, racing⟩ := launching
  unfold launchParity
  dsimp only
  split
  · exact ⟨reserved, racing⟩
  rename_i candidate
  simp only [Bool.or_eq_true, not_or, Bool.not_eq_true] at candidate
  have unengaged := candidate.1.1.1.2
  have present : (self.readers slot).isSome = true := by
    rw [Option.isSome_iff_ne_none]
    intro absent
    rw [absent] at candidate
    cases candidate.1.1.2
  split
  · split
    · exact ⟨reserved_set_none reserved, racing_set_none racing⟩
    · rename_i cursor reopened
      exact ⟨reserved, racing_disposable racing (sources.reopen_aligned slot stripe cursor reopened) unengaged⟩
  rcases try_engage_cases sources stripe reserved unengaged present with
    ⟨cursor, next, engages⟩ | refuses
  · rw [engages]
    dsimp only
    rw [set_engaged_readers, set_reader_same]
    refine ⟨reserved_set_engaged (reserved_engage reserved _) (set_engaged_same _ _ _) _,
      racing_persistent racing next rfl (set_engaged_same _ _ _)
        (set_reader_same _ _ _) fun other different => ⟨?_, ?_⟩⟩
    · exact set_engaged_other different
    · rw [set_reader_other different, set_engaged_readers,
        set_reader_other different]
  · rw [refuses]
    dsimp only
    split
    · exact ⟨reserved_set_none reserved, racing_set_none racing⟩
    split
    · exact ⟨reserved_set_none (reserved_set_none reserved), racing_set_none (racing_set_none racing)⟩
    · rename_i cursor reopened
      refine ⟨reserved_engage reserved none, racing_persistent racing
        (sources.reopen_aligned slot stripe cursor reopened) rfl
        (set_engaged_same _ _ _) (set_reader_same _ _ _)
        fun other different => ⟨?_, ?_⟩⟩
      · exact set_engaged_other different
      · exact set_reader_other different

theorem launch_keeps (race : Race n) (reserved : Reserved self)
    (racing : Racing stripe race.sets race.temporaryParity self) :
    Launching stripe (Machine.launchDemandBoundParity sources stripe maxNew disposable race self) := by
  have keeps : ∀ (slots : List (Fin n)) (launch : Nat × Race n × ParallelReader n),
      Launching stripe launch →
      Launching stripe (slots.foldl (launchParity sources stripe maxNew disposable) launch) := by
    intro slots
    induction slots with
    | nil => exact fun _ launching => launching
    | cons slot slots ih => exact fun _ launching => ih _ (launch_parity_keeps launching)
  exact keeps _ _ ⟨reserved, racing⟩

/-- What holds of the race at every point of the loop. The reads in flight stand at the stripe,
the engaged slots that have landed behind it. -/
structure Running (running : Race n) (machine : Machine n) : Prop where
  shards : ∀ slot shard, machine.state.shards slot = some shard → shard = ⟨slot, machine.stripe⟩
  reserved : Reserved machine.reader
  racing : Racing machine.stripe running.sets running.temporaryParity machine.reader

theorem admit_parity_running (holds : Running running machine) :
    Running (machine.admitParity sources disposable running).2.1
      (machine.admitParity sources disposable running).2.2 := by
  obtain ⟨reserved, racing⟩ := @launch_keeps n sources machine.stripe
    (demandBoundParityAdmissionLimit machine.reader machine.state running.sets) disposable
    machine.reader running holds.reserved holds.racing
  exact ⟨holds.shards, reserved, racing⟩

theorem finish_racing_aligned (holds : Running running machine) :
    Aligned (machine.finishRacing running) := by
  have engaged : (fun slot => if (running.sets slot).isSome && running.temporaryParity slot then false
      else machine.reader.engaged slot) = machine.reader.engaged := by
    funext slot
    split
    · rename_i isDisposable
      rw [Bool.and_eq_true] at isDisposable
      exact (holds.racing.disposable slot isDisposable.1 isDisposable.2).symm
    · rfl
  unfold finishRacing
  dsimp only
  rw [engaged]
  refine ⟨holds.shards, reserved_retire holds.reserved _, fun slot isEngaged => ?_⟩
  rw [retire_readers, holds.racing.index]
  split
  · exact at_none _
  rename_i stays
  cases flying : running.sets slot with
  | none => exact holds.racing.landed slot flying isEngaged
  | some cursor =>
    cases isTemporary : running.temporaryParity slot with
    | true =>
      have unengaged := holds.racing.disposable slot (by rw [flying]; rfl) isTemporary
      rw [show machine.reader.engaged slot = true from isEngaged] at unengaged
      cases unengaged
    | false => exact absurd (by simp [flying, isTemporary]) stays

theorem race_aligned (holds : Running running machine) : Aligned (machine.race sources running) := by
  unfold race
  split
  · exact ⟨holds.shards, holds.reserved, holds.racing⟩
  dsimp only
  split
  · have launched := @admit_parity_running n sources
      (!(running.dataFailureSeen || machine.reader.dataSlots.any machine.state.errs))
      { running with
        dataFailureSeen := running.dataFailureSeen || machine.reader.dataSlots.any machine.state.errs }
      machine ⟨holds.shards, holds.reserved, holds.racing⟩
    split
    · exact ⟨launched.shards, launched.reserved, launched.racing⟩
    · exact finish_racing_aligned launched
  · exact finish_racing_aligned ⟨holds.shards, holds.reserved, holds.racing⟩

theorem racing_start (ready : Ready stripe self) :
    Racing stripe (fun slot => if self.engaged slot then self.readers slot else none) (fun _ => false)
      (self.retire self.engaged) := by
  refine ⟨ready.index, fun slot => ?_, fun slot isSome _ => ?_, fun slot _ isTemporary => ?_,
    fun slot _ isEngaged => ?_⟩
  · split
    · rename_i isEngaged
      exact ready.engaged slot isEngaged
    · exact at_none _
  · split at isSome
    · rename_i isEngaged
      exact ⟨isEngaged, if_pos isEngaged⟩
    · cases isSome
  · cases isTemporary
  · rw [retire_readers, if_pos (show self.engaged slot = true from isEngaged)]
    exact at_none _

theorem start_racing_aligned (ready : Ready machine.stripe machine.reader)
    (fresh : machine.state = .reset) : Aligned (machine.startRacing sources) := by
  have noShards : ∀ slot shard, machine.state.shards slot = some shard →
      shard = ⟨slot, machine.stripe⟩ := by
    intro slot shard isShard
    rw [fresh] at isShard
    cases isShard
  have reserved := reserved_retire ready.reserved machine.reader.engaged
  have racing := racing_start ready
  unfold startRacing
  dsimp only
  split
  · exact race_aligned ⟨noShards, reserved, racing⟩
  · obtain ⟨stillReserved, stillRacing⟩ := @launch_keeps n sources machine.stripe
      (min (machine.reader.missingDataReaders + 1) maxDemandBoundParityInFlight) false
      (machine.reader.retire machine.reader.engaged)
      { sets := fun slot => if machine.reader.engaged slot then machine.reader.readers slot else none
        temporaryParity := fun _ => false
        attemptedParity := fun _ => false
        dataFailureSeen := decide (0 < machine.reader.missingDataReaders)
        fallbackAdmitted := false
        hedged := false
        success := 0
        retireReaders := [] } reserved racing
    exact race_aligned ⟨noShards, stillReserved, stillRacing⟩

theorem racing_land (racing : Racing stripe sets temporary self) {after : ParallelReader n}
    (index : after.stripeIndex = self.stripeIndex)
    (others : ∀ other, other ≠ slot → after.readers other = self.readers other)
    (engaged : after.engaged = self.engaged)
    (stands : self.engaged slot = true → At ⟨slot, stripe + 1⟩ (after.readers slot)) :
    Racing stripe (Function.update sets slot none) temporary after := by
  have flew : ∀ other, (Function.update sets slot none other).isSome = true →
      other ≠ slot ∧ (sets other).isSome = true := by
    intro other isSome
    have different : other ≠ slot := by
      rintro rfl
      rw [Function.update_self] at isSome
      cases isSome
    rw [Function.update_of_ne different] at isSome
    exact ⟨different, isSome⟩
  refine ⟨index.trans racing.index, fun other => ?_, fun other isSome isKept => ?_,
    fun other isSome isTemporary => ?_, fun other isNone otherEngaged => ?_⟩
  · by_cases same : other = slot
    · rw [same, Function.update_self]
      exact at_none _
    · rw [Function.update_of_ne same]
      exact racing.flying other
  · obtain ⟨different, isFlying⟩ := flew other isSome
    rw [engaged, others other different]
    exact racing.persistent other isFlying isKept
  · rw [engaged]
    exact racing.disposable other (flew other isSome).2 isTemporary
  · rw [engaged] at otherEngaged
    by_cases same : other = slot
    · rw [same] at otherEngaged ⊢
      exact stands otherEngaged
    · rw [Function.update_of_ne same] at isNone
      rw [others other same]
      exact racing.landed other isNone otherEngaged

theorem record_racing_running (holds : Running running machine)
    (flying : running.sets slot = some cursor) (outcome : Outcome n) :
    Running (machine.recordRacing slot cursor running outcome).1
      (machine.recordRacing slot cursor running outcome).2 := by
  have next := holds.racing.flying slot cursor flying
  have isFlying : (running.sets slot).isSome = true := by
    rw [flying]
    rfl
  have shards : ∀ other shard, Function.update machine.state.shards slot (some cursor.next) other =
      some shard → shard = ⟨other, machine.stripe⟩ := by
    intro other shard isShard
    by_cases same : other = slot
    · rw [same, Function.update_self] at isShard
      rw [← Option.some.inj isShard, next, same]
    · rw [Function.update_of_ne same] at isShard
      exact holds.shards other shard isShard
  cases isTemporary : running.temporaryParity slot with
  | true =>
    have unengaged := holds.racing.disposable slot isFlying isTemporary
    have racing := racing_land holds.racing rfl (fun _ _ => rfl) rfl
      (fun isEngaged => by rw [unengaged] at isEngaged; cases isEngaged)
    cases outcome with
    | ok shouldRetire =>
      unfold recordRacing
      dsimp only
      rw [if_pos isTemporary, set_engaged_unchanged unengaged]
      exact ⟨shards, holds.reserved, racing⟩
    | err _ =>
      unfold recordRacing
      rw [if_pos isTemporary, set_engaged_unchanged unengaged]
      exact ⟨holds.shards, holds.reserved, racing⟩
  | false =>
    obtain ⟨isEngaged, taken⟩ := holds.racing.persistent slot isFlying isTemporary
    have notTemporary : ¬ running.temporaryParity slot = true := by simp [isTemporary]
    cases outcome with
    | ok shouldRetire =>
      unfold recordRacing
      dsimp only
      rw [if_neg notTemporary]
      cases shouldRetire with
      | true =>
        have racing := racing_land holds.racing rfl (fun _ _ => rfl) rfl
          (fun _ => taken ▸ at_none _)
        exact ⟨shards, holds.reserved, racing⟩
      | false =>
        have racing := @racing_land n machine.stripe machine.reader slot _ _ holds.racing
          (machine.reader.setReader slot (some cursor.moved)) rfl
          (fun _ different => set_reader_other different) rfl
          (fun _ => (set_reader_same _ _ _).symm ▸ at_moved next)
        exact ⟨shards, reserved_set_engaged holds.reserved isEngaged _, racing⟩
    | err _ =>
      have racing := @racing_land n machine.stripe machine.reader slot _ _ holds.racing
        (machine.reader.setReader slot none) rfl
        (fun _ different => set_reader_other different) rfl
        (fun _ => (set_reader_same _ _ _).symm ▸ at_none _)
      unfold recordRacing
      rw [if_neg notTemporary]
      exact ⟨holds.shards, reserved_set_none holds.reserved, racing⟩

theorem completed_racing_aligned (holds : Running running machine)
    (flying : running.sets slot = some cursor) (outcome : Outcome n) :
    Aligned (machine.completedRacing sources slot cursor outcome running) := by
  have recorded := record_racing_running holds flying outcome
  unfold completedRacing
  dsimp only
  split
  · have launched := @admit_parity_running n sources
      (!(machine.recordRacing slot cursor running outcome).1.dataFailureSeen) _ _ recorded
    split
    · exact finish_racing_aligned launched
    · exact race_aligned launched
  · split
    · exact finish_racing_aligned recorded
    · exact race_aligned recorded

theorem hedge_racing_aligned (holds : Running running machine) :
    Aligned (machine.hedgeRacing sources running) := by
  have hedged : Running { running with hedged := true } machine :=
    ⟨holds.shards, holds.reserved, holds.racing⟩
  unfold hedgeRacing
  split
  · exact race_aligned hedged
  · exact race_aligned (admit_parity_running hedged)

end DemandBound

section Runs

variable {sources : Sources n} {machine next : Machine n} {event : Event n}

theorem call_aligned (aligned : Aligned machine) (idle : machine.phase = .idle) (demandBound : Bool) :
    Aligned (machine.call sources demandBound) := by
  have standing := aligned.standing
  unfold Machine.Standing at standing
  rw [idle] at standing
  unfold call
  dsimp only
  split
  · refine ⟨fun _ _ isShard => (by cases isShard), aligned.reserved, ?_⟩
    rw [idle]
    exact standing
  · have ready : Ready machine.reader.stripeIndex
        { machine.reader with
          offset := machine.reader.offset + machine.reader.stripeShardSize
          stripeIndex := machine.reader.stripeIndex + 1 } :=
      ⟨rfl, ⟨aligned.reserved.deferred, aligned.reserved.hedged⟩, standing⟩
    split
    · exact start_racing_aligned ready rfl
    · exact start_awaiting_aligned ready rfl

theorem step_aligned (aligned : Aligned machine) (stepped : machine.step sources event = some next) :
    Aligned next := by
  have standing := aligned.standing
  unfold Machine.Standing at standing
  unfold step at stepped
  split at stepped
  · rename_i idle
    cases stepped
    exact call_aligned aligned idle _
  · rename_i sets hedged retireReaders slot outcome awaiting
    rw [awaiting] at standing
    split at stepped
    · rename_i isSet
      obtain ⟨cursor, isReader, rfl⟩ := Option.map_eq_some_iff.1 stepped
      exact completed_awaiting_aligned aligned standing isSet isReader outcome
    · cases stepped
  · rename_i awaiting
    rw [awaiting] at standing
    cases stepped
    exact hedge_awaiting_aligned aligned standing
  · rename_i substituting
    rw [substituting] at standing
    cases stepped
    exact seek_substitute_aligned aligned standing
  · rename_i slot retireReaders ended outcome substitute
    split at stepped
    · obtain ⟨cursor, isReader, rfl⟩ := Option.map_eq_some_iff.1 stepped
      exact completed_substitute_aligned aligned substitute isReader outcome
    · cases stepped
  · rename_i running slot outcome racing
    rw [racing] at standing
    obtain ⟨cursor, flying, rfl⟩ := Option.map_eq_some_iff.1 stepped
    exact completed_racing_aligned ⟨aligned.shards, aligned.reserved, standing⟩ flying outcome
  · rename_i running racing
    rw [racing] at standing
    split at stepped
    · cases stepped
    · cases stepped
      exact hedge_racing_aligned ⟨aligned.shards, aligned.reserved, standing⟩
  · cases stepped

end Runs

/-- A new reader: the reader of an engaged slot is at its first block, opened by the setup or not,
and the slots held in reserve have an unopened reader or none. -/
structure Fresh (machine : Machine n) : Prop where
  first : machine.reader.stripeIndex = 0
  engaged : ∀ slot, machine.reader.engaged slot = true → At ⟨slot, 0⟩ (machine.reader.readers slot)
  reserve : ∀ slot, machine.reader.engaged slot = false → machine.reader.readers slot = none ∨
    machine.reader.readers slot = some (.deferred slot)
  unhedged : ∀ slot, machine.reader.hedgedReaders slot = false
  empty : ∀ slot, machine.state.shards slot = none
  idle : machine.phase = .idle

theorem fresh_aligned {machine : Machine n} (fresh : Fresh machine) : Aligned machine := by
  refine ⟨fun slot shard isShard => ?_, ⟨fresh.reserve, fun slot isHedged => ?_⟩, ?_⟩
  · rw [fresh.empty] at isShard
    cases isShard
  · rw [fresh.unhedged] at isHedged
    cases isHedged
  · unfold Machine.Standing
    rw [fresh.idle]
    intro slot isEngaged
    rw [fresh.first]
    exact fresh.engaged slot isEngaged

/-- In every run, over any number of slots and stripes, a shard in the state of a stripe is the
block of that stripe in the file of its own slot. A cursor left behind by a failed or cancelled
read may stand anywhere. -/
theorem lockstep_never_mixes_stripes (sources : Sources n) (start final : Machine n)
    (events : List (Event n)) (fresh : Fresh start)
    (ran : run (Machine.step sources) start events = some final) (slot : Fin n) (shard : Shard n)
    (placed : final.state.shards slot = some shard) : shard = ⟨slot, final.stripe⟩ :=
  (run_keeps step_aligned (fresh_aligned fresh) ran).shards slot shard placed

/-- Reopeners and handles for every slot; a cancelled reader is lost. -/
def sampleSources : Sources 3 where
  hasReopener _ := true
  reopen slot stripe := some ⟨⟨slot, stripe⟩, true⟩
  advanceStripes slot stripe cursor := if cursor.opened then none else some ⟨⟨slot, stripe⟩, false⟩
  cancelled slot _ := ⟨⟨slot, 7⟩, true⟩
  reopen_aligned _ _ _ reopened := by
    cases reopened
    rfl
  advance_aligned _ _ _ advanced := by
    cases advanced
    rfl

/-- Two data slots, engaged and open, and a parity slot in reserve. -/
def sampleStart : Machine 3 where
  reader :=
    { dataShards := 2
      shardSize := 4
      shardFileSize := 12
      offset := 0
      stripeIndex := 0
      readers := fun slot => some ⟨⟨slot, 0⟩, slot.val < 2⟩
      engaged := fun slot => slot.val < 2
      hedgedReaders := fun _ => false }
  state := .reset
  stripe := 0
  phase := .idle

/-- The parity slot is reopened for a hedge of the second stripe; on the third one a data slot
fails and the parity slot is engaged. -/
def sampleEvents : List (Event 3) :=
  [.call true, .completed 0 (.ok false), .completed 1 (.ok false),
    .call true, .completed 0 (.ok false), .hedgeElapsed, .completed 2 (.ok false),
    .completed 1 (.ok false),
    .call true, .completed 0 (.err ⟨⟨0, 9⟩, true⟩), .completed 2 (.ok false)]

theorem sample_fresh : Fresh sampleStart where
  first := rfl
  engaged slot _ := at_some rfl
  reserve slot unengaged := by
    have parity : decide (slot.val < 2) = false := unengaged
    refine .inr ?_
    change some (Cursor.mk ⟨slot, 0⟩ (decide (slot.val < 2))) = _
    rw [parity, Cursor.deferred]
  unhedged _ := rfl
  empty _ := rfl
  idle := rfl

theorem lockstep_sample :
    ∃ final, run (Machine.step sampleSources) sampleStart sampleEvents = some final ∧
      final.state.shards 2 = some ⟨2, 2⟩ ∧ (⟨2, 2⟩ : Shard 3) = ⟨2, final.stripe⟩ := by
  have reached : (run (Machine.step sampleSources) sampleStart sampleEvents).bind
      (fun final => final.state.shards 2) = some ⟨2, 2⟩ := by decide
  obtain ⟨final, ran, placed⟩ := Option.bind_eq_some_iff.1 reached
  exact ⟨final, ran, placed, lockstep_never_mixes_stripes sampleSources sampleStart final
    sampleEvents sample_fresh ran 2 ⟨2, 2⟩ placed⟩

end Rustfs.Ecstore.Lockstep
