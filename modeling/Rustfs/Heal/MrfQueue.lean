import Rustfs.Library.ByteReader
import Rustfs.Library.Runs
import Mathlib.Algebra.Ring.Nat
import Mathlib.Data.Finset.Basic
import Mathlib.Data.Finset.Lattice.Lemmas

/-!
# The queue of repair intents

`MrfQueue` of `heal/src/heal/mrf_queue.rs` over the intents of `common/src/mrf_channel.rs`. An
intent that is popped leaves the set of pending keys while it is processed, so that a retry of the
same object can enter. Counters, the raised limits of a replay and the lifecycle channel are left
out.
-/

namespace Rustfs.Heal

open List Library
open Library.ByteReader (Bytes)

inductive MrfKind where
  | decodeFailure
  | metadataCorruption
  | partialWrite
  | deleteMarkerPurge
  deriving DecidableEq

structure MrfScope where
  poolIndex : BitVec 32
  setIndex : BitVec 32
  deriving DecidableEq

structure MrfDeleteMarkerPurgeIdentity where
  bucketIncarnationId : BitVec 128
  markerIncarnationId : BitVec 128
  markerIdentity : BitVec 256
  deriving DecidableEq

structure MrfDeleteMarkerPurge extends MrfDeleteMarkerPurgeIdentity where
  marker : Bytes
  deriving DecidableEq

/-- Names are their UTF-8 texts, version ids their sixteen bytes. -/
structure MrfIntent where
  bucket : String
  object : String
  versionId : Option (BitVec 128)
  kind : MrfKind
  deleteMarkerPurge : Option MrfDeleteMarkerPurge
  scope : Option MrfScope
  lease : Option (BitVec 64)
  enqueuedAtMs : BitVec 64
  attempts : BitVec 8
  deriving DecidableEq

def saturatingAdd (left right : Nat) : Nat := min (left + right) (2 ^ 64 - 1)

def sizeOfMrfDeleteMarkerPurge : Nat := 80

def MrfIntent.estimatedBytes (intent : MrfIntent) : Nat :=
  saturatingAdd (saturatingAdd (saturatingAdd 64 intent.bucket.utf8ByteSize)
    intent.object.utf8ByteSize)
    (intent.deleteMarkerPurge.elim 0 fun purge =>
      saturatingAdd sizeOfMrfDeleteMarkerPurge purge.marker.length)

structure MrfQueueKey where
  kind : MrfKind
  bucket : String
  object : String
  versionId : Option (BitVec 128)
  scope : Option MrfScope
  deleteMarkerPurge : Option MrfDeleteMarkerPurgeIdentity
  deriving DecidableEq

def queueKey (intent : MrfIntent) : MrfQueueKey where
  kind := intent.kind
  bucket := intent.bucket
  object := intent.object
  versionId := intent.versionId.filter (· ≠ 0)
  scope := if intent.kind = .metadataCorruption then none else intent.scope
  deleteMarkerPurge := intent.deleteMarkerPurge.map (·.toMrfDeleteMarkerPurgeIdentity)

def mrfMaxIdentityComponent : Nat := 1024

structure MrfQueue where
  pending : List MrfIntent
  pendingKeys : Finset MrfQueueKey
  bytes : Nat
  capacity : Nat
  byteBudget : Nat

inductive MrfQueuePushResult where
  | enqueued
  | coalesced
  | rejected
  deriving DecidableEq

namespace MrfQueue

def new (capacity byteBudget : Nat) : MrfQueue := ⟨[], ∅, 0, capacity, byteBudget⟩

def pushBack (queue : MrfQueue) (intent : MrfIntent) : MrfQueue :=
  { queue with
    pendingKeys := insert (queueKey intent) queue.pendingKeys
    bytes := queue.bytes + intent.estimatedBytes
    pending := queue.pending ++ [intent] }

def tryPushTyped (queue : MrfQueue) (intent : MrfIntent) : MrfQueuePushResult × MrfQueue :=
  if intent.bucket.utf8ByteSize > mrfMaxIdentityComponent ∨
      intent.object.utf8ByteSize > mrfMaxIdentityComponent then
    (.rejected, queue)
  else if queueKey intent ∈ queue.pendingKeys then (.coalesced, queue)
  else if queue.pending.length ≥ queue.capacity ∨
      queue.bytes + intent.estimatedBytes > queue.byteBudget then
    (.rejected, queue)
  else (.enqueued, queue.pushBack intent)

def popFront (queue : MrfQueue) : Option MrfIntent × MrfQueue :=
  match queue.pending with
  | [] => (none, queue)
  | intent :: pending => (some intent,
      { queue with
        pending
        pendingKeys := queue.pendingKeys.erase (queueKey intent)
        bytes := queue.bytes - intent.estimatedBytes })

end MrfQueue

inductive MrfQueueOp where
  | tryPushTyped (intent : MrfIntent)
  | popFront
  | pushBack (intent : MrfIntent)

/-- The queue with the intents that were popped from it so far. -/
structure MrfQueueRun where
  queue : MrfQueue
  popped : List MrfIntent

def MrfQueueRun.apply (state : MrfQueueRun) : MrfQueueOp → MrfQueueRun
  | .tryPushTyped intent => { state with queue := (state.queue.tryPushTyped intent).2 }
  | .popFront => ⟨state.queue.popFront.2, state.popped ++ state.queue.popFront.1.toList⟩
  | .pushBack intent => { state with queue := state.queue.pushBack intent }

def MrfQueueRun.PutsBackPopped (state : MrfQueueRun) : MrfQueueOp → Prop
  | .pushBack intent => ∃ earlier ∈ state.popped, { earlier with attempts := intent.attempts } = intent
  | _ => True

/-- No pending intent has the key of the one that is put back. The callers meet this by putting an
intent back before they push another one. -/
def MrfQueueRun.PutsBackReleased (state : MrfQueueRun) : MrfQueueOp → Prop
  | .pushBack intent => ∀ other ∈ state.queue.pending, queueKey other ≠ queueKey intent
  | _ => True

/-- The states of the runs whose operations all meet a condition on the state before them. -/
inductive MrfQueueRun.Reaches (meets : MrfQueueRun → MrfQueueOp → Prop) (start : MrfQueueRun) :
    MrfQueueRun → Prop
  | start : Reaches meets start start
  | step {state : MrfQueueRun} (op : MrfQueueOp) (reached : Reaches meets start state)
      (met : meets state op) : Reaches meets start (state.apply op)

/-- One pending intent for a key, and the keys and the bytes are those of the pending intents. -/
structure MrfQueue.Booked (queue : MrfQueue) : Prop where
  distinct : (queue.pending.map queueKey).Nodup
  keys : queue.pendingKeys = (queue.pending.map queueKey).toFinset
  bytes : queue.bytes = (queue.pending.map MrfIntent.estimatedBytes).sum

namespace MrfQueue

variable {queue : MrfQueue} {intent : MrfIntent}

theorem booked_new (capacity byteBudget : Nat) : (new capacity byteBudget).Booked :=
  ⟨nodup_nil, rfl, rfl⟩

theorem Booked.push_back (booked : queue.Booked)
    (released : ∀ other ∈ queue.pending, queueKey other ≠ queueKey intent) :
    (queue.pushBack intent).Booked where
  distinct := by
    simp only [pushBack, map_append, map_cons, map_nil]
    refine nodup_append.2 ⟨booked.distinct, nodup_singleton _, ?_⟩
    intro key pending key' isKey
    obtain ⟨other, member, rfl⟩ := mem_map.1 pending
    rw [mem_singleton.1 isKey]
    exact released other member
  keys := by
    simp only [pushBack, booked.keys, map_append, map_cons, map_nil, toFinset_append]
    rw [Finset.union_comm, Finset.insert_eq]
    rfl
  bytes := by
    simp only [pushBack, booked.bytes, map_append, sum_append, map_cons, map_nil, sum_singleton]

theorem Booked.try_push_typed (booked : queue.Booked) : (queue.tryPushTyped intent).2.Booked := by
  unfold tryPushTyped
  split_ifs with oversized pending full
  · exact booked
  · exact booked
  · exact booked
  · apply booked.push_back
    intro other member same
    apply pending
    rw [booked.keys, ← same]
    exact mem_toFinset.2 (mem_map_of_mem member)

theorem Booked.pop_front (booked : queue.Booked) : queue.popFront.2.Booked := by
  obtain ⟨distinct, keys, bytes⟩ := booked
  unfold popFront
  split
  next empty => exact ⟨distinct, keys, bytes⟩
  next first pending isPending =>
    rw [isPending] at distinct keys bytes
    rw [map_cons] at distinct keys bytes
    refine ⟨distinct.of_cons, ?_, ?_⟩
    · rw [keys, toFinset_cons, Finset.erase_insert]
      rw [mem_toFinset]
      exact (nodup_cons.1 distinct).1
    · simp only [bytes, sum_cons, Nat.add_sub_cancel_left]

end MrfQueue

/-- Over every run that puts an intent back only while its key is free, the books are those of the
pending intents: one for a key, with its keys and its bytes. Intents that are being processed are
in none of them. -/
theorem mrf_queue_booked (capacity byteBudget : Nat) {final : MrfQueueRun}
    (reached : MrfQueueRun.Reaches MrfQueueRun.PutsBackReleased
      ⟨.new capacity byteBudget, []⟩ final) : final.queue.Booked := by
  induction reached with
  | start => exact MrfQueue.booked_new capacity byteBudget
  | step op reached met ih =>
    cases op with
    | tryPushTyped intent => exact ih.try_push_typed
    | popFront => exact ih.pop_front
    | pushBack intent => exact ih.push_back met

def sampleIntent : MrfIntent where
  bucket := "bucket"
  object := "object"
  versionId := none
  kind := .decodeFailure
  deleteMarkerPurge := none
  scope := none
  lease := none
  enqueuedAtMs := 0
  attempts := 0

theorem sample_put_back_booked :
    (((⟨.new 4 1024, []⟩ : MrfQueueRun).apply (.tryPushTyped sampleIntent)).apply
      .popFront |>.apply (.pushBack sampleIntent)).queue.Booked :=
  mrf_queue_booked 4 1024
    (.step (.pushBack _) (.step .popFront (.step (.tryPushTyped _) .start trivial) trivial)
      fun _ member => nomatch member)

/-- The same object enters again before its popped intent is put back. -/
theorem put_back_duplicates : ∃ final, MrfQueueRun.Reaches MrfQueueRun.PutsBackPopped
      ⟨.new 4 1024, []⟩ final ∧ ¬ final.queue.Booked := by
  refine ⟨_, .step (.pushBack sampleIntent) (.step (.tryPushTyped sampleIntent) (.step .popFront
    (.step (.tryPushTyped sampleIntent) .start trivial) trivial) trivial)
    ⟨sampleIntent, ?_, rfl⟩, ?_⟩
  · decide
  · intro booked
    exact absurd booked.distinct (by decide)

end Rustfs.Heal
