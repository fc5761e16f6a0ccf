import Rustfs.Library.KeyMap
import Rustfs.Library.Outcome
import Mathlib.Data.Prod.Lex
import Mathlib.Data.String.Basic

/-!
# The quota ledger of a bucket

`QuotaLedger` of `bucket/quota/reservation.rs` and the updates made to it under the ledger lock.
Every update loads the ledger first, which fails for a ledger that has more reserved than accounted.
The exact usage of the bucket is an argument where an update counts it. A fence here cancels every
writer of an object that has started, where the source may revoke one pool and set only. Retries of
a settlement are left out: one that fails has not happened yet.
-/

namespace Rustfs.Ecstore.Quota

open Library KeyMap

inductive StorageError
  | partMissingOrCorrupt
  | quotaExceeded (current limit : Nat)
  deriving DecidableEq

def u64Max : Nat := 2 ^ 64 - 1

def checkedAdd (left right : Nat) : Except StorageError Nat :=
  if left + right ≤ u64Max then .ok (left + right) else .error .partMissingOrCorrupt

def checkedSub (left right : Nat) : Except StorageError Nat :=
  if right ≤ left then .ok (left - right) else .error .partMissingOrCorrupt

abbrev OperationId := Nat

structure PersistedReservation where
  object : String
  oldSize : Nat
  newSize : Nat
  createdAt : Int
  commitStarted : Bool
  deriving DecidableEq

namespace PersistedReservation

def growth (reservation : PersistedReservation) : Nat := reservation.newSize - reservation.oldSize

def matchesExpected (reservation expected : PersistedReservation) : Bool :=
  reservation.object = expected.object && reservation.oldSize = expected.oldSize &&
    reservation.newSize = expected.newSize

end PersistedReservation

structure QuotaLedger where
  accountedUsage : Nat
  reservations : KeyMap OperationId PersistedReservation
  reconcileRequired : Bool
  reapCursor : Option OperationId
  deriving DecidableEq

namespace QuotaLedger

def new (accountedUsage : Nat) : QuotaLedger := ⟨accountedUsage, KeyMap.empty, false, none⟩

def admittedUsage (ledger : QuotaLedger) : Except StorageError Nat :=
  match ledger.reservations.entries.foldlM (fun total entry => checkedAdd total entry.2.growth) 0 with
  | .error error => .error error
  | .ok reservedGrowth =>
    if ledger.accountedUsage < reservedGrowth then .error .partMissingOrCorrupt
    else .ok ledger.accountedUsage

/-- `load_ledger_locked` of a ledger of the current format. -/
def load (ledger : QuotaLedger) : Except StorageError QuotaLedger :=
  ledger.admittedUsage.map fun _ => ledger

def reserve (ledger : QuotaLedger) (operationId : OperationId) (reservation : PersistedReservation) :
    Except StorageError QuotaLedger :=
  (checkedAdd ledger.accountedUsage reservation.growth).map fun accountedUsage =>
    { ledger with
      accountedUsage
      reservations := ledger.reservations.insert operationId reservation }

def commit (ledger : QuotaLedger) (operationId : OperationId) (expected : PersistedReservation) :
    Except StorageError QuotaLedger :=
  match ledger.reservations.get operationId with
  | none => .error .partMissingOrCorrupt
  | some reservation =>
    if !reservation.matchesExpected expected then .error .partMissingOrCorrupt
    else .ok { ledger with
      reservations := ledger.reservations.remove operationId
      reconcileRequired := ledger.reconcileRequired || reservation.newSize < reservation.oldSize }

def abort (ledger : QuotaLedger) (operationId : OperationId) (expected : PersistedReservation) :
    Except StorageError QuotaLedger :=
  match ledger.reservations.get operationId with
  | none => .ok ledger
  | some reservation =>
    if !reservation.matchesExpected expected then .error .partMissingOrCorrupt
    else (checkedSub ledger.accountedUsage reservation.growth).map fun accountedUsage =>
      { ledger with
        accountedUsage
        reservations := ledger.reservations.remove operationId }

def markCommitStarted (ledger : QuotaLedger) (operationId : OperationId)
    (expected : PersistedReservation) : Except StorageError QuotaLedger :=
  match ledger.reservations.get operationId with
  | none => .error .partMissingOrCorrupt
  | some reservation =>
    if !reservation.matchesExpected expected then .error .partMissingOrCorrupt
    else .ok { ledger with
      reservations := ledger.reservations.insert operationId { reservation with commitStarted := true } }

def shouldReconcileAfterDenial (ledger : QuotaLedger) : Bool := ledger.reservations.isEmpty

def reconcileExact (ledger : QuotaLedger) (exactUsage : Nat) : Except StorageError QuotaLedger :=
  if !ledger.reservations.isEmpty then .error .partMissingOrCorrupt
  else .ok { ledger with accountedUsage := exactUsage, reconcileRequired := false }

def reconcileBeforeDenial (quotaLimit exactUsage growth expectedUsage : Nat) (ledger : QuotaLedger) :
    Except StorageError QuotaLedger :=
  if 0 < growth && quotaLimit < expectedUsage && growth ≤ quotaLimit &&
      ledger.shouldReconcileAfterDenial then
    ledger.reconcileExact exactUsage
  else .ok ledger

/-- The update of `QuotaContext::reserve`. -/
def reserveLocked (quotaLimit exactUsage : Nat) (operationId : OperationId)
    (reservation : PersistedReservation) (ledger : QuotaLedger) : Except StorageError QuotaLedger := do
  let ledger ← ledger.load
  let growth := reservation.growth
  let currentUsage ← ledger.admittedUsage
  let expectedUsage ← checkedAdd currentUsage growth
  let ledger ← reconcileBeforeDenial quotaLimit exactUsage growth expectedUsage ledger
  let currentUsage ← ledger.admittedUsage
  let expectedUsage ← checkedAdd currentUsage growth
  if 0 < growth && quotaLimit < expectedUsage then .error (.quotaExceeded currentUsage quotaLimit)
  else ledger.reserve operationId reservation

def markCommitStartedLocked (operationId : OperationId) (expected : PersistedReservation)
    (ledger : QuotaLedger) : Except StorageError QuotaLedger := do
  let ledger ← ledger.load
  ledger.markCommitStarted operationId expected

def settle (committed : Bool) (operationId : OperationId) (expected : PersistedReservation)
    (ledger : QuotaLedger) : Except StorageError QuotaLedger := do
  let ledger ← ledger.load
  if committed then ledger.commit operationId expected else ledger.abort operationId expected

def orphanMinAgeSeconds : Int := 30

def maxOrphanProbesPerWrite : Nat := 128

def maxOrphansReapedPerWrite : Nat := 64

def reapCandidates (ledger : QuotaLedger) (now : Int) : List OperationId × Option OperationId :=
  let aged := (ledger.reservations.entries.filter fun entry =>
    now < entry.2.createdAt || orphanMinAgeSeconds ≤ now - entry.2.createdAt).map Prod.fst
  let start := (ledger.reapCursor.bind fun cursor =>
    aged.findIdx? fun operationId => cursor < operationId).getD 0
  let candidates := (aged.drop start ++ aged.take start).take maxOrphanProbesPerWrite
  (candidates, candidates.getLast?)

/-- One round of the loop of `remove_orphan_reservations`. -/
def removeOrphan (ledger : QuotaLedger) (operationId : OperationId) : Except StorageError QuotaLedger :=
  match ledger.reservations.get operationId with
  | none => .ok ledger
  | some reservation =>
    if reservation.commitStarted then
      .ok { ledger with
        reservations := ledger.reservations.remove operationId
        reconcileRequired := true }
    else ledger.abort operationId reservation

def removeOrphanReservations (ledger : QuotaLedger) (operationIds : List OperationId) :
    Except StorageError QuotaLedger :=
  operationIds.foldlM removeOrphan ledger

/-- The recount once nothing is reserved. -/
def reconcileWhenIdle (exactUsage : Nat) (ledger : QuotaLedger) : Except StorageError QuotaLedger :=
  if ledger.reservations.isEmpty && ledger.reconcileRequired then ledger.reconcileExact exactUsage
  else .ok ledger

/-- The objects of the orphans that may have a write on its way. -/
def orphanCommitTargets (ledger : QuotaLedger) (orphanIds : List OperationId) : List String :=
  (orphanIds.filterMap ledger.reservations.get).filterMap fun reservation =>
    if reservation.commitStarted then some reservation.object else none

/-- The update of `reap_stale_reservations` after the objects are fenced. -/
def reapLocked (exactUsage : Nat) (orphanIds : List OperationId) (nextCursor : Option OperationId)
    (ledger : QuotaLedger) : Except StorageError QuotaLedger := do
  let ledger ← ledger.load
  let ledger := { ledger with reapCursor := nextCursor.or ledger.reapCursor }
  let ledger ← ledger.removeOrphanReservations orphanIds
  ledger.reconcileWhenIdle exactUsage

variable {ledger updated : QuotaLedger} {operationId : OperationId}
  {reservation expected : PersistedReservation}

theorem checked_add_ok {left right sum : Nat} (added : checkedAdd left right = .ok sum) :
    sum = left + right := by
  unfold checkedAdd at added
  split at added
  · cases added
    rfl
  · cases added

theorem admitted_usage_ok {usage : Nat} (admitted : ledger.admittedUsage = .ok usage) :
    usage = ledger.accountedUsage := by
  unfold admittedUsage at admitted
  split at admitted
  · cases admitted
  · split at admitted
    · cases admitted
    · cases admitted
      rfl

theorem load_ok (loaded : ledger.load = .ok updated) : updated = ledger := by
  obtain ⟨_, _, same⟩ := Outcome.map_eq_ok.1 loaded
  exact same.symm

theorem mark_commit_started_ok
    (marked : ledger.markCommitStartedLocked operationId expected = .ok updated) :
    ∃ reservation, ledger.reservations.get operationId = some reservation ∧
      updated = { ledger with
        reservations := ledger.reservations.insert operationId { reservation with commitStarted := true } } := by
  obtain ⟨_, loaded, marked⟩ := Outcome.bind_eq_ok.1 marked
  cases load_ok loaded
  unfold markCommitStarted at marked
  split at marked
  · cases marked
  · rename_i reservation reserved
    split at marked
    · cases marked
    · cases marked
      exact ⟨reservation, reserved, rfl⟩

theorem commit_ok (committed : ledger.settle true operationId expected = .ok updated) :
    ∃ reservation, ledger.reservations.get operationId = some reservation ∧
      updated.reservations = ledger.reservations.remove operationId ∧
      updated.accountedUsage = ledger.accountedUsage := by
  obtain ⟨_, loaded, committed⟩ := Outcome.bind_eq_ok.1 committed
  cases load_ok loaded
  rw [if_pos rfl] at committed
  unfold commit at committed
  split at committed
  · cases committed
  · rename_i reservation reserved
    split at committed
    · cases committed
    · cases committed
      exact ⟨reservation, reserved, rfl, rfl⟩

theorem abort_ok (aborted : ledger.abort operationId expected = .ok updated) :
    updated = ledger ∨ ∃ reservation, ledger.reservations.get operationId = some reservation ∧
      updated.reservations = ledger.reservations.remove operationId ∧
      updated.accountedUsage + reservation.growth = ledger.accountedUsage := by
  unfold abort at aborted
  split at aborted
  · cases aborted
    exact .inl rfl
  · rename_i reservation reserved
    split at aborted
    · cases aborted
    · obtain ⟨accountedUsage, subtracted, rfl⟩ := Outcome.map_eq_ok.1 aborted
      unfold checkedSub at subtracted
      split at subtracted
      · rename_i enough
        cases subtracted
        exact .inr ⟨reservation, reserved, rfl, Nat.sub_add_cancel enough⟩
      · cases subtracted

theorem settle_abort_ok (aborted : ledger.settle false operationId expected = .ok updated) :
    ledger.abort operationId expected = .ok updated := by
  obtain ⟨_, loaded, aborted⟩ := Outcome.bind_eq_ok.1 aborted
  cases load_ok loaded
  exact aborted

theorem reconcile_before_denial_ok {quotaLimit exactUsage growth expectedUsage : Nat}
    (reconciled : reconcileBeforeDenial quotaLimit exactUsage growth expectedUsage ledger = .ok updated) :
    updated = ledger ∨ ledger.reconcileExact exactUsage = .ok updated := by
  unfold reconcileBeforeDenial at reconciled
  split at reconciled
  · exact .inr reconciled
  · cases reconciled
    exact .inl rfl

theorem reserve_ok {quotaLimit exactUsage : Nat}
    (reserved : ledger.reserveLocked quotaLimit exactUsage operationId reservation = .ok updated) :
    ∃ counted, (counted = ledger ∨ ledger.reconcileExact exactUsage = .ok counted) ∧
      updated.reservations = counted.reservations.insert operationId reservation ∧
      updated.accountedUsage = counted.accountedUsage + reservation.growth ∧
      (0 < reservation.growth → updated.accountedUsage ≤ quotaLimit) := by
  obtain ⟨_, loaded, reserved⟩ := Outcome.bind_eq_ok.1 reserved
  cases load_ok loaded
  obtain ⟨_, _, reserved⟩ := Outcome.bind_eq_ok.1 reserved
  obtain ⟨_, _, reserved⟩ := Outcome.bind_eq_ok.1 reserved
  obtain ⟨counted, reconciled, reserved⟩ := Outcome.bind_eq_ok.1 reserved
  obtain ⟨usage, admitted, reserved⟩ := Outcome.bind_eq_ok.1 reserved
  obtain ⟨expectedUsage, added, reserved⟩ := Outcome.bind_eq_ok.1 reserved
  have isExpected := checked_add_ok added
  rw [admitted_usage_ok admitted] at isExpected
  refine ⟨counted, reconcile_before_denial_ok reconciled, ?_⟩
  split at reserved
  · cases reserved
  · rename_i within
    obtain ⟨accountedUsage, sum, rfl⟩ := Outcome.map_eq_ok.1 reserved
    refine ⟨rfl, checked_add_ok sum, ?_⟩
    intro grows
    simp only [Bool.and_eq_true, decide_eq_true_eq, not_and, not_lt] at within
    rw [checked_add_ok sum, ← isExpected]
    exact within grows

end QuotaLedger

inductive WriterPhase
  | reading
  | reserved
  | started
  | written
  | committed
  | aborted
  deriving DecidableEq

/-- An object with one of its versions. -/
abbrev Slot := String ×ₗ String

structure Writer where
  version : String
  reservation : PersistedReservation
  phase : WriterPhase
  holdsObject : Bool
  holdsOperation : Bool
  cancelled : Bool
  deriving DecidableEq

namespace Writer

def object (writer : Writer) : String := writer.reservation.object

def slot (writer : Writer) : Slot := toLex (writer.object, writer.version)

def growth (writer : Writer) : Nat := writer.reservation.growth

def hasWritten (writer : Writer) : Bool := writer.phase = .written || writer.phase = .committed

/-- A fence of the object: a write on its way there does not happen any more. -/
def fence (writer : Writer) (object : String) : Writer :=
  if writer.object = object && writer.phase = .started then { writer with cancelled := true } else writer

end Writer

/-- What a reaper has read: the candidates with their cursor, and whether to recount. -/
structure Reaper where
  candidates : List OperationId
  nextCursor : Option OperationId
  reconcileRequired : Bool
  deriving DecidableEq

structure QuotaSystem where
  sizes : KeyMap Slot Nat
  ledger : QuotaLedger
  writers : KeyMap OperationId Writer
  reapers : List Reaper
  deriving DecidableEq

namespace QuotaSystem

/-- The logical size of the bucket, as `BucketUsageAccumulator` adds it up. -/
def logicalUsage (system : QuotaSystem) : Nat := min (system.sizes.total fun _ size => size) u64Max

/-- `replaced_logical_size`; a new version has nothing to replace. -/
def replacedLogicalSize (system : QuotaSystem) (slot : Slot) : Nat := (system.sizes.get slot).getD 0

def ObjectFree (system : QuotaSystem) (object : String) : Prop :=
  ∀ entry ∈ system.writers.entries, entry.2.object = object → entry.2.holdsObject = false

def OperationFree (system : QuotaSystem) (operationId : OperationId) : Prop :=
  ∀ writer, system.writers.get operationId = some writer → writer.holdsOperation = false

def setWriter (system : QuotaSystem) (operationId : OperationId) (writer : Writer) : QuotaSystem :=
  { system with writers := system.writers.insert operationId writer }

/-- `fence_namespace_mutations` of the object. -/
def fence (system : QuotaSystem) (object : String) : QuotaSystem :=
  { system with writers := system.writers.mapValues fun writer => writer.fence object }

def fenceAll (system : QuotaSystem) (objects : List String) : QuotaSystem := objects.foldl fence system

inductive Event
  | begin (operationId : OperationId)
  | reserve (operationId : OperationId)
  | markCommitStarted (operationId : OperationId)
  | write (operationId : OperationId)
  | commit (operationId : OperationId)
  | abort (operationId : OperationId)
  | loseObject (operationId : OperationId)
  | loseOperation (operationId : OperationId)
  | delete (slot : Slot)
  | probe
  | fence (object : String)
  | reap
  deriving DecidableEq

/-- One step of one party. An update whose answer is lost has happened; the writer then
does not go on as after a success (`answered`). -/
inductive Step (quotaLimit : Nat) : QuotaSystem → Event → QuotaSystem → Prop
  | begin {system : QuotaSystem} {operationId : OperationId} {object version : String}
      {newSize : Nat} {createdAt : Int} (fresh : system.writers.get operationId = none)
      (unlocked : system.ObjectFree object) :
      Step quotaLimit system (.begin operationId)
        (system.setWriter operationId
          { version
            reservation :=
              { object
                oldSize := system.replacedLogicalSize (toLex (object, version))
                newSize
                createdAt
                commitStarted := false }
            phase := .reading
            holdsObject := true
            holdsOperation := true
            cancelled := false })
  | reserve {system : QuotaSystem} {operationId : OperationId} {writer : Writer} {ledger : QuotaLedger}
      (answered : Bool) (found : system.writers.get operationId = some writer)
      (phase : writer.phase = .reading) (locked : writer.holdsOperation = true)
      (updated : system.ledger.reserveLocked quotaLimit system.logicalUsage operationId
        writer.reservation = .ok ledger) :
      Step quotaLimit system (.reserve operationId)
        ({ system with ledger }.setWriter operationId
          { writer with phase := if answered then .reserved else .aborted })
  | markCommitStarted {system : QuotaSystem} {operationId : OperationId} {writer : Writer}
      {ledger : QuotaLedger} (answered : Bool) (found : system.writers.get operationId = some writer)
      (phase : writer.phase = .reserved)
      (updated : system.ledger.markCommitStartedLocked operationId writer.reservation = .ok ledger) :
      Step quotaLimit system (.markCommitStarted operationId)
        ({ system with ledger }.setWriter operationId
          { writer with phase := if answered then .started else .aborted })
  | write {system : QuotaSystem} {operationId : OperationId} {writer : Writer}
      (found : system.writers.get operationId = some writer) (phase : writer.phase = .started)
      (locked : writer.holdsObject = true) (notCancelled : writer.cancelled = false) :
      Step quotaLimit system (.write operationId)
        ({ system with sizes := system.sizes.insert writer.slot writer.reservation.newSize }.setWriter
          operationId { writer with phase := .written })
  | commit {system : QuotaSystem} {operationId : OperationId} {writer : Writer} {ledger : QuotaLedger}
      (answered : Bool) (found : system.writers.get operationId = some writer)
      (phase : writer.phase = .written)
      (updated : system.ledger.settle true operationId writer.reservation = .ok ledger) :
      Step quotaLimit system (.commit operationId)
        ({ system with ledger }.setWriter operationId
          { writer with phase := if answered then .committed else .written })
  | abort {system : QuotaSystem} {operationId : OperationId} {writer : Writer} {ledger : QuotaLedger}
      (found : system.writers.get operationId = some writer)
      (phase : writer.phase = .reserved ∨ writer.phase = .started ∨ writer.phase = .aborted)
      (updated : system.ledger.settle false operationId writer.reservation = .ok ledger) :
      Step quotaLimit system (.abort operationId)
        ({ system with ledger }.setWriter operationId { writer with phase := .aborted })
  | loseObject {system : QuotaSystem} {operationId : OperationId} {writer : Writer}
      (found : system.writers.get operationId = some writer) :
      Step quotaLimit system (.loseObject operationId)
        (system.setWriter operationId { writer with holdsObject := false })
  | loseOperation {system : QuotaSystem} {operationId : OperationId} {writer : Writer}
      (found : system.writers.get operationId = some writer) :
      Step quotaLimit system (.loseOperation operationId)
        (system.setWriter operationId { writer with holdsOperation := false })
  | delete {system : QuotaSystem} {slot : Slot} (unlocked : system.ObjectFree (ofLex slot).1) :
      Step quotaLimit system (.delete slot) { system with sizes := system.sizes.remove slot }
  | probe {system : QuotaSystem} (now : Int) :
      Step quotaLimit system .probe
        { system with
          reapers :=
            { candidates := (system.ledger.reapCandidates now).1
              nextCursor := (system.ledger.reapCandidates now).2
              reconcileRequired := system.ledger.reconcileRequired } :: system.reapers }
  | fence {system : QuotaSystem} {reaper : Reaper} {operationId : OperationId}
      {reservation : PersistedReservation} (reading : reaper ∈ system.reapers)
      (candidate : operationId ∈ reaper.candidates) (orphaned : system.OperationFree operationId)
      (found : system.ledger.reservations.get operationId = some reservation)
      (started : reservation.commitStarted = true) :
      Step quotaLimit system (.fence reservation.object) (system.fence reservation.object)
  | reap {system : QuotaSystem} {reaper : Reaper} {orphanIds : List OperationId} {ledger : QuotaLedger}
      (reading : reaper ∈ system.reapers)
      (needed : reaper.candidates ≠ [] ∨ reaper.reconcileRequired = true)
      (candidates : orphanIds ⊆ reaper.candidates)
      (bounded : orphanIds.length ≤ QuotaLedger.maxOrphansReapedPerWrite)
      (orphaned : ∀ operationId ∈ orphanIds, system.OperationFree operationId)
      (updated : system.ledger.reapLocked system.logicalUsage orphanIds reaper.nextCursor = .ok ledger) :
      Step quotaLimit system .reap
        { system.fenceAll (system.ledger.orphanCommitTargets orphanIds) with ledger }

inductive Reachable (quotaLimit : Nat) (start : QuotaSystem) : QuotaSystem → Prop
  | start : Reachable quotaLimit start start
  | step {system next : QuotaSystem} {event : Event} (reached : Reachable quotaLimit start system)
      (taken : Step quotaLimit system event next) : Reachable quotaLimit start next

/-- No writer yet, and a ledger created from the exact usage. Later usage is only known to the
ledger through its own updates. -/
structure IsStart (system : QuotaSystem) : Prop where
  noWriters : system.writers = KeyMap.empty
  noReapers : system.reapers = []
  exactLedger : system.ledger = QuotaLedger.new system.logicalUsage

end QuotaSystem

variable {object : String} {reservation : PersistedReservation}

namespace Writer

def outstanding (writer : Writer) : Bool := writer.phase = .started && !writer.cancelled

/-- The writer has read the size it replaces and not written. -/
def beforeWrite (writer : Writer) : Bool :=
  writer.phase = .reading || writer.phase = .reserved || writer.phase = .started

/-- The second writer is the first one, no earlier on its way to its write. -/
structure Follows (after before : Writer) : Prop where
  reservation : after.reservation = before.reservation
  version : after.version = before.version
  object : after.holdsObject = true → before.holdsObject = true
  written : after.hasWritten = before.hasWritten
  reading : after.phase = .reading → before.phase = .reading
  beforeWrite : after.beforeWrite = true → before.beforeWrite = true

theorem Follows.refl (writer : Writer) : Follows writer writer :=
  ⟨rfl, rfl, id, rfl, id, id⟩

variable {writer : Writer}

theorem follows_phase {after : WriterPhase}
    (written : ({ writer with phase := after } : Writer).hasWritten = writer.hasWritten)
    (leaves : after ≠ .reading)
    (before : ({ writer with phase := after } : Writer).beforeWrite = true → writer.beforeWrite = true) :
    ({ writer with phase := after } : Writer).Follows writer :=
  ⟨rfl, rfl, id, written, fun reading => absurd reading leaves, before⟩

theorem follows_fence (writer : Writer) (object : String) : (writer.fence object).Follows writer := by
  unfold fence
  split
  · exact ⟨rfl, rfl, id, rfl, id, id⟩
  · exact Follows.refl writer

theorem outstanding_of_fence
    (outstanding : (writer.fence object).outstanding = true) : writer.outstanding = true := by
  unfold fence at outstanding
  split at outstanding
  · simp [Writer.outstanding] at outstanding
  · exact outstanding

theorem fence_stops (inside : writer.object = object) :
    (writer.fence object).outstanding = false := by
  unfold fence outstanding
  split
  · simp
  · rename_i notStarted
    simp only [inside, decide_true, Bool.true_and, decide_eq_true_eq] at notStarted
    simp [notStarted]

end Writer

namespace QuotaSystem

/-- The growth of a reservation, unless its write has happened. -/
def openGrowth (writers : KeyMap OperationId Writer) (operationId : OperationId)
    (reservation : PersistedReservation) : Nat :=
  if (writers.get operationId).any Writer.hasWritten then 0 else reservation.growth

/-- The growth of the reservations whose write has not happened and is not cancelled. -/
def outstandingGrowth (system : QuotaSystem) : Nat :=
  system.ledger.reservations.total fun operationId reservation =>
    if (system.writers.get operationId).any fun writer => writer.hasWritten || writer.cancelled then 0
    else reservation.growth

structure Accounting (quotaLimit : Nat) (system : QuotaSystem) : Prop where
  owned : ∀ operationId reservation, system.ledger.reservations.get operationId = some reservation →
    ∃ writer, system.writers.get operationId = some writer ∧ writer.phase ≠ .reading ∧
      reservation.matchesExpected writer.reservation = true
  marked : ∀ operationId writer, system.writers.get operationId = some writer →
    writer.outstanding = true →
      ∃ reservation, system.ledger.reservations.get operationId = some reservation ∧
        reservation.commitStarted = true
  unmarked : ∀ operationId writer reservation, system.writers.get operationId = some writer →
    system.ledger.reservations.get operationId = some reservation →
      reservation.commitStarted = false → writer.hasWritten = false
  current : ∀ operationId writer, system.writers.get operationId = some writer →
    writer.holdsObject = true → writer.beforeWrite = true →
      writer.reservation.oldSize = system.replacedLogicalSize writer.slot
  exclusive : ∀ operationId other writer otherWriter, system.writers.get operationId = some writer →
    system.writers.get other = some otherWriter → writer.holdsObject = true →
      otherWriter.holdsObject = true → writer.object = otherWriter.object → operationId = other
  charged : system.logicalUsage + system.ledger.reservations.total (openGrowth system.writers) ≤
    system.ledger.accountedUsage
  admitted : ∀ operationId reservation, system.ledger.reservations.get operationId = some reservation →
    0 < reservation.growth → system.ledger.accountedUsage ≤ quotaLimit

theorem growth_of_matches {expected : PersistedReservation}
    (matched : reservation.matchesExpected expected = true) :
    reservation.object = expected.object ∧ reservation.growth = expected.growth := by
  unfold PersistedReservation.matchesExpected at matched
  simp only [Bool.and_eq_true, decide_eq_true_eq] at matched
  unfold PersistedReservation.growth
  exact ⟨matched.1.1, by rw [matched.1.2, matched.2]⟩

theorem open_growth_le (writers : KeyMap OperationId Writer) (operationId : OperationId)
    (reservation : PersistedReservation) : openGrowth writers operationId reservation ≤ reservation.growth := by
  unfold openGrowth
  split
  · exact Nat.zero_le _
  · exact le_rfl

theorem open_growth_congr {before after : KeyMap OperationId Writer} {operationId : OperationId}
    (same : (after.get operationId).map Writer.hasWritten = (before.get operationId).map Writer.hasWritten)
    (reservation : PersistedReservation) :
    openGrowth after operationId reservation = openGrowth before operationId reservation := by
  unfold openGrowth
  have sameAny : (after.get operationId).any Writer.hasWritten =
      (before.get operationId).any Writer.hasWritten := by
    cases isAfter : after.get operationId with
    | none =>
      rw [isAfter] at same
      rw [Option.map_eq_none_iff.1 same.symm]
    | some writer =>
      rw [isAfter, Option.map_some] at same
      obtain ⟨other, isBefore, written⟩ := Option.map_eq_some_iff.1 same.symm
      rw [isBefore, Option.any_some, Option.any_some, written]
  rw [sameAny]

namespace Accounting

variable {quotaLimit : Nat} {system : QuotaSystem} {operationId : OperationId}
  {ledger : QuotaLedger}

theorem follow (accounting : Accounting quotaLimit system) {writers : KeyMap OperationId Writer}
    (same : ∀ operationId, ∃ change : Writer → Writer,
      writers.get operationId = (system.writers.get operationId).map change ∧
        ∀ writer, system.writers.get operationId = some writer → (change writer).Follows writer)
    (marked : ∀ operationId writer, writers.get operationId = some writer → writer.outstanding = true →
      ∃ reservation, system.ledger.reservations.get operationId = some reservation ∧
        reservation.commitStarted = true) : Accounting quotaLimit { system with writers } := by
  have back : ∀ operationId after, writers.get operationId = some after →
      ∃ before, system.writers.get operationId = some before ∧ after.Follows before := by
    intro operationId after found
    obtain ⟨change, changed, follows⟩ := same operationId
    rw [changed] at found
    obtain ⟨before, isBefore, rfl⟩ := Option.map_eq_some_iff.1 found
    exact ⟨before, isBefore, follows before isBefore⟩
  have objects : ∀ {before after : Writer}, after.Follows before → after.object = before.object := by
    intro before after follows
    unfold Writer.object
    rw [follows.reservation]
  refine ⟨?_, marked, ?_, ?_, ?_, ?_, accounting.admitted⟩
  · intro operationId reservation reserved
    obtain ⟨writer, found, notReading, matched⟩ := accounting.owned operationId reservation reserved
    obtain ⟨change, changed, follows⟩ := same operationId
    refine ⟨change writer, by rw [changed, found, Option.map_some], ?_, ?_⟩
    · intro reading
      exact notReading ((follows writer found).reading reading)
    · rw [(follows writer found).reservation]
      exact matched
  · intro operationId after reservation found reserved unmarked
    obtain ⟨before, wasFound, follows⟩ := back operationId after found
    rw [follows.written]
    exact accounting.unmarked operationId before reservation wasFound reserved unmarked
  · intro operationId after found holds beforeWrite
    obtain ⟨before, wasFound, follows⟩ := back operationId after found
    have slot : after.slot = before.slot := by
      unfold Writer.slot
      rw [objects follows, follows.version]
    rw [follows.reservation, slot]
    exact accounting.current operationId before wasFound (follows.object holds)
      (follows.beforeWrite beforeWrite)
  · intro operationId other after otherAfter found otherFound holds otherHolds sameObject
    obtain ⟨before, wasFound, follows⟩ := back operationId after found
    obtain ⟨otherBefore, otherWasFound, otherFollows⟩ := back other otherAfter otherFound
    rw [objects follows, objects otherFollows] at sameObject
    exact accounting.exclusive operationId other before otherBefore wasFound otherWasFound
      (follows.object holds) (otherFollows.object otherHolds) sameObject
  · have sameTotal : system.ledger.reservations.total (openGrowth writers) =
        system.ledger.reservations.total (openGrowth system.writers) := by
      apply total_congr
      intro operationId reservation _
      apply open_growth_congr
      obtain ⟨change, changed, follows⟩ := same operationId
      rw [changed]
      cases found : system.writers.get operationId with
      | none => rfl
      | some writer =>
        rw [Option.map_some, Option.map_some, Option.map_some, (follows writer found).written]
    rw [sameTotal]
    exact accounting.charged

theorem set_writer (accounting : Accounting quotaLimit system)
    {before after : Writer} (found : system.writers.get operationId = some before)
    (follows : after.Follows before) (marked : after.outstanding = true →
      ∃ reservation, system.ledger.reservations.get operationId = some reservation ∧
        reservation.commitStarted = true) :
    Accounting quotaLimit (system.setWriter operationId after) := by
  apply accounting.follow
  · intro wanted
    by_cases isThis : wanted = operationId
    · subst isThis
      refine ⟨fun _ => after, ?_, ?_⟩
      · rw [get_insert, if_pos rfl, found, Option.map_some]
      · intro writer isWriter
        rw [found] at isWriter
        cases isWriter
        exact follows
    · refine ⟨id, ?_, fun writer _ => Writer.Follows.refl writer⟩
      rw [get_insert, if_neg isThis, Option.map_id]
      rfl
  · intro wanted writer isWriter
    rw [get_insert] at isWriter
    split at isWriter
    · rename_i isThis
      cases isWriter
      rw [isThis]
      exact marked
    · exact accounting.marked wanted writer isWriter

theorem fence (accounting : Accounting quotaLimit system) (object : String) :
    Accounting quotaLimit (system.fence object) := by
  apply accounting.follow
  · intro operationId
    refine ⟨fun writer => writer.fence object, get_map_values _ _ _, ?_⟩
    intro writer _
    exact Writer.follows_fence writer object
  · intro operationId after found outstanding
    rw [get_map_values] at found
    obtain ⟨writer, wasFound, rfl⟩ := Option.map_eq_some_iff.1 found
    exact accounting.marked operationId writer wasFound (Writer.outstanding_of_fence outstanding)

section

variable (accounting : Accounting quotaLimit system) {writer : Writer}

include accounting

/-- A reservation leaves the ledger: its writer has no write on its way, and what the ledger
gives back is at most the growth of a write that has not happened. -/
theorem removed (reserved : system.ledger.reservations.get operationId = some reservation)
    (stopped : ∀ writer, system.writers.get operationId = some writer → writer.outstanding = false)
    (removed : ledger.reservations = system.ledger.reservations.remove operationId)
    (lower : ledger.accountedUsage ≤ system.ledger.accountedUsage)
    (given : system.ledger.accountedUsage ≤
      ledger.accountedUsage + openGrowth system.writers operationId reservation) :
    Accounting quotaLimit { system with ledger } := by
  have older : ∀ wanted kept, ledger.reservations.get wanted = some kept →
      wanted ≠ operationId ∧ system.ledger.reservations.get wanted = some kept := by
    intro wanted kept isKept
    rw [removed, get_remove] at isKept
    split at isKept
    · cases isKept
    · rename_i different
      exact ⟨different, isKept⟩
  constructor
  · intro wanted kept isKept
    exact accounting.owned wanted kept (older wanted kept isKept).2
  · intro wanted writer found outstanding
    obtain ⟨kept, isKept, started⟩ := accounting.marked wanted writer found outstanding
    refine ⟨kept, ?_, started⟩
    rw [removed, get_remove, if_neg]
    · exact isKept
    · rintro rfl
      rw [stopped writer found] at outstanding
      cases outstanding
  · intro wanted writer kept found isKept
    exact accounting.unmarked wanted writer kept found (older wanted kept isKept).2
  · exact accounting.current
  · exact accounting.exclusive
  · have charged := accounting.charged
    rw [total_of_found reserved] at charged
    change system.logicalUsage + ledger.reservations.total (openGrowth system.writers) ≤
      ledger.accountedUsage
    rw [removed]
    omega
  · intro wanted kept isKept grows
    exact lower.trans (accounting.admitted wanted kept (older wanted kept isKept).2 grows)

theorem reconciled (updated : system.ledger.reconcileExact system.logicalUsage = .ok ledger) :
    Accounting quotaLimit { system with ledger } := by
  unfold QuotaLedger.reconcileExact at updated
  split at updated
  · cases updated
  · rename_i isEmpty
    cases updated
    have nothing : system.ledger.reservations.entries = [] := by
      simpa [KeyMap.isEmpty] using isEmpty
    have absent : ∀ operationId reservation,
        system.ledger.reservations.get operationId ≠ some reservation := by
      intro operationId reservation reserved
      have member := get_eq_some.1 reserved
      rw [nothing] at member
      cases member
    refine ⟨accounting.owned, accounting.marked, accounting.unmarked, accounting.current,
      accounting.exclusive, ?_, ?_⟩
    · unfold total
      rw [nothing]
      rfl
    · intro operationId reservation reserved
      exact absurd reserved (absent operationId reservation)

theorem reserved (found : system.writers.get operationId = some writer)
    (notReading : writer.phase ≠ .reading) (unwritten : writer.hasWritten = false)
    (absent : system.ledger.reservations.get operationId = none)
    (reservations : ledger.reservations =
      system.ledger.reservations.insert operationId writer.reservation)
    (accounted : ledger.accountedUsage = system.ledger.accountedUsage + writer.reservation.growth)
    (within : 0 < writer.reservation.growth → ledger.accountedUsage ≤ quotaLimit) :
    Accounting quotaLimit { system with ledger } := by
  have got : ∀ wanted kept, ledger.reservations.get wanted = some kept ↔
      (wanted = operationId ∧ kept = writer.reservation) ∨
        system.ledger.reservations.get wanted = some kept := by
    intro wanted kept
    rw [reservations, get_insert_fresh absent]
  refine ⟨?_, ?_, ?_, accounting.current, accounting.exclusive, ?_, ?_⟩
  · intro wanted kept isKept
    rcases (got wanted kept).1 isKept with ⟨rfl, rfl⟩ | older
    · refine ⟨writer, found, notReading, ?_⟩
      simp [PersistedReservation.matchesExpected]
    · exact accounting.owned wanted kept older
  · intro wanted other isOther outstanding
    obtain ⟨kept, isKept, started⟩ := accounting.marked wanted other isOther outstanding
    exact ⟨kept, (got wanted kept).2 (.inr isKept), started⟩
  · intro wanted other kept isOther isKept unmarked
    rcases (got wanted kept).1 isKept with ⟨rfl, rfl⟩ | older
    · rw [found] at isOther
      cases isOther
      exact unwritten
    · exact accounting.unmarked wanted other kept isOther older unmarked
  · have charged := accounting.charged
    have le := open_growth_le system.writers operationId writer.reservation
    change system.logicalUsage + ledger.reservations.total (openGrowth system.writers) ≤
      ledger.accountedUsage
    rw [reservations, total_insert, remove_absent absent, accounted]
    omega
  · intro wanted kept isKept grows
    rcases (got wanted kept).1 isKept with ⟨rfl, rfl⟩ | older
    · exact within grows
    · rcases Nat.eq_zero_or_pos writer.reservation.growth with isZero | isPositive
      · rw [accounted, isZero]
        exact accounting.admitted wanted kept older grows
      · exact within isPositive

theorem commit_started (reserved : system.ledger.reservations.get operationId = some reservation)
    (updated : ledger = { system.ledger with
      reservations := system.ledger.reservations.insert operationId
        { reservation with commitStarted := true } }) :
    Accounting quotaLimit { system with ledger } := by
  have back : ∀ wanted kept, ledger.reservations.get wanted = some kept →
      ∃ older, system.ledger.reservations.get wanted = some older ∧ kept.growth = older.growth ∧
        (∀ expected, kept.matchesExpected expected = older.matchesExpected expected) ∧
        (kept.commitStarted = false → older.commitStarted = false) := by
    intro wanted kept isKept
    rw [updated] at isKept
    dsimp only at isKept
    rw [get_insert] at isKept
    split at isKept
    · rename_i same
      cases isKept
      subst same
      exact ⟨reservation, reserved, rfl, fun _ => rfl, nofun⟩
    · exact ⟨kept, isKept, rfl, fun _ => rfl, id⟩
  refine ⟨?_, ?_, ?_, accounting.current, accounting.exclusive, ?_, ?_⟩
  · intro wanted kept isKept
    obtain ⟨older, isOlder, _, matches_, _⟩ := back wanted kept isKept
    obtain ⟨writer, found, notReading, matched⟩ := accounting.owned wanted older isOlder
    exact ⟨writer, found, notReading, (matches_ _).trans matched⟩
  · intro wanted writer found outstanding
    obtain ⟨kept, isKept, started⟩ := accounting.marked wanted writer found outstanding
    change ∃ kept, ledger.reservations.get wanted = some kept ∧ kept.commitStarted = true
    rw [updated]
    dsimp only
    rw [get_insert]
    split
    · exact ⟨_, rfl, rfl⟩
    · exact ⟨kept, isKept, started⟩
  · intro wanted writer kept found isKept unmarked
    obtain ⟨older, isOlder, _, _, wasUnmarked⟩ := back wanted kept isKept
    exact accounting.unmarked wanted writer older found isOlder (wasUnmarked unmarked)
  · have charged := accounting.charged
    rw [total_of_found reserved] at charged
    change system.logicalUsage + ledger.reservations.total (openGrowth system.writers) ≤
      ledger.accountedUsage
    rw [updated]
    dsimp only
    rw [total_insert]
    exact charged
  · intro wanted kept isKept grows
    obtain ⟨older, isOlder, sameGrowth, _, _⟩ := back wanted kept isKept
    have lower := accounting.admitted wanted older isOlder (sameGrowth ▸ grows)
    change ledger.accountedUsage ≤ quotaLimit
    rw [updated]
    exact lower

theorem begin_writer (fresh : system.writers.get operationId = none)
    (unlocked : system.ObjectFree writer.object) (phase : writer.phase = .reading)
    (read : writer.reservation.oldSize = system.replacedLogicalSize writer.slot) :
    Accounting quotaLimit (system.setWriter operationId writer) := by
  have got : ∀ wanted other, (system.writers.insert operationId writer).get wanted = some other ↔
      (wanted = operationId ∧ other = writer) ∨ system.writers.get wanted = some other :=
    fun wanted other => get_insert_fresh fresh
  have noHolder : ∀ wanted other, system.writers.get wanted = some other →
      other.holdsObject = true → other.object ≠ writer.object := by
    intro wanted other isOther holds sameObject
    have free := unlocked (wanted, other) (get_eq_some.1 isOther) sameObject
    rw [holds] at free
    cases free
  have notReserved : ∀ wanted kept, system.ledger.reservations.get wanted = some kept →
      wanted ≠ operationId := by
    rintro wanted kept isKept rfl
    obtain ⟨owner, isOwner, _⟩ := accounting.owned wanted kept isKept
    rw [fresh] at isOwner
    cases isOwner
  refine ⟨?_, ?_, ?_, ?_, ?_, ?_, accounting.admitted⟩
  · intro wanted kept isKept
    obtain ⟨owner, isOwner, rest⟩ := accounting.owned wanted kept isKept
    exact ⟨owner, (got wanted owner).2 (.inr isOwner), rest⟩
  · intro wanted other isOther outstanding
    rcases (got wanted other).1 isOther with ⟨_, rfl⟩ | older
    · simp [Writer.outstanding, phase] at outstanding
    · exact accounting.marked wanted other older outstanding
  · intro wanted other kept isOther isKept unmarked
    rcases (got wanted other).1 isOther with ⟨isThis, _⟩ | older
    · exact absurd isThis (notReserved wanted kept isKept)
    · exact accounting.unmarked wanted other kept older isKept unmarked
  · intro wanted other isOther holds beforeWrite
    rcases (got wanted other).1 isOther with ⟨_, rfl⟩ | older
    · exact read
    · exact accounting.current wanted other older holds beforeWrite
  · intro wanted other first second isFirst isSecond holds otherHolds sameObject
    rcases (got wanted first).1 isFirst with ⟨rfl, rfl⟩ | older
    · rcases (got other second).1 isSecond with ⟨rfl, rfl⟩ | otherOlder
      · rfl
      · exact absurd sameObject.symm (noHolder other second otherOlder otherHolds)
    · rcases (got other second).1 isSecond with ⟨rfl, rfl⟩ | otherOlder
      · exact absurd sameObject (noHolder wanted first older holds)
      · exact accounting.exclusive wanted other first second older otherOlder holds otherHolds sameObject
  · have sameTotal : system.ledger.reservations.total (openGrowth (system.writers.insert operationId writer)) =
        system.ledger.reservations.total (openGrowth system.writers) := by
      apply total_congr
      intro wanted kept isKept
      apply open_growth_congr
      rw [get_insert, if_neg (notReserved wanted kept isKept)]
    change system.logicalUsage + system.ledger.reservations.total
      (openGrowth (system.writers.insert operationId writer)) ≤ _
    rw [sameTotal]
    exact accounting.charged

theorem delete {slot : Slot} (unlocked : system.ObjectFree (ofLex slot).1) :
    Accounting quotaLimit { system with sizes := system.sizes.remove slot } := by
  refine ⟨accounting.owned, accounting.marked, accounting.unmarked, ?_, accounting.exclusive, ?_,
    accounting.admitted⟩
  · intro operationId writer found holds beforeWrite
    have elsewhere : writer.slot ≠ slot := by
      rintro rfl
      have free := unlocked (operationId, writer) (get_eq_some.1 found) rfl
      rw [holds] at free
      cases free
    rw [accounting.current operationId writer found holds beforeWrite]
    unfold replacedLogicalSize
    rw [get_remove, if_neg elsewhere]
  · have charged := accounting.charged
    have smaller : logicalUsage { system with sizes := system.sizes.remove slot } ≤ system.logicalUsage := by
      exact min_le_min_right _ total_remove_le
    exact (Nat.add_le_add_right smaller _).trans charged

end

theorem usage_after_write (system : QuotaSystem) (slot : Slot) (newSize : Nat) :
    logicalUsage { system with sizes := system.sizes.insert slot newSize } ≤
      system.logicalUsage + (newSize - system.replacedLogicalSize slot) := by
  unfold logicalUsage replacedLogicalSize
  dsimp only
  rw [total_insert]
  cases found : system.sizes.get slot with
  | none =>
    rw [remove_absent found, Option.getD_none]
    omega
  | some size =>
    rw [total_of_found found, Option.getD_some]
    omega

section Write

variable {operationId : OperationId} {writer : Writer}

section

variable (accounting : Accounting quotaLimit system)
  (found : system.writers.get operationId = some writer)

include accounting found

theorem outstanding_reservation (outstanding : writer.outstanding = true) :
    ∃ reservation, system.ledger.reservations.get operationId = some reservation ∧
      reservation.growth = writer.growth ∧
      openGrowth system.writers operationId reservation = writer.growth := by
  obtain ⟨reservation, reserved, _⟩ := accounting.marked operationId writer found outstanding
  obtain ⟨owner, isOwner, _, matched⟩ := accounting.owned operationId reservation reserved
  rw [found] at isOwner
  cases isOwner
  have sameGrowth := (growth_of_matches matched).2
  refine ⟨reservation, reserved, sameGrowth, ?_⟩
  have unwritten : writer.hasWritten = false := by
    simp only [Writer.outstanding, Bool.and_eq_true, decide_eq_true_eq] at outstanding
    simp [Writer.hasWritten, outstanding.1]
  unfold openGrowth
  rw [found, Option.any_some, unwritten]
  exact sameGrowth

theorem charged_write (locked : writer.holdsObject = true)
    (outstanding : writer.outstanding = true) :
    logicalUsage { system with
        sizes := system.sizes.insert writer.slot writer.reservation.newSize } +
      (system.ledger.reservations.remove operationId).total (openGrowth system.writers) ≤
        system.ledger.accountedUsage := by
  obtain ⟨reservation, reserved, _, isOpen⟩ := accounting.outstanding_reservation found outstanding
  have charged := accounting.charged
  rw [total_of_found reserved, isOpen] at charged
  have beforeWrite : writer.beforeWrite = true := by
    simp only [Writer.outstanding, Bool.and_eq_true, decide_eq_true_eq] at outstanding
    simp [Writer.beforeWrite, outstanding.1]
  have read := accounting.current operationId writer found locked beforeWrite
  have added := usage_after_write system writer.slot writer.reservation.newSize
  rw [← read] at added
  change _ ≤ system.logicalUsage + writer.growth at added
  omega

theorem write (locked : writer.holdsObject = true) (outstanding : writer.outstanding = true) :
    Accounting quotaLimit
      ({ system with sizes := system.sizes.insert writer.slot writer.reservation.newSize }.setWriter
        operationId { writer with phase := .written }) := by
  have got : ∀ wanted other,
      (system.writers.insert operationId { writer with phase := .written }).get wanted = some other →
        (wanted = operationId ∧ other = { writer with phase := .written }) ∨
          (wanted ≠ operationId ∧ system.writers.get wanted = some other) := by
    intro wanted other isOther
    rw [get_insert] at isOther
    split at isOther
    · rename_i same
      cases isOther
      exact .inl ⟨same, rfl⟩
    · rename_i different
      exact .inr ⟨different, isOther⟩
  refine ⟨?_, ?_, ?_, ?_, ?_, ?_, accounting.admitted⟩
  · intro wanted kept isKept
    obtain ⟨owner, isOwner, notReading, matched⟩ := accounting.owned wanted kept isKept
    change ∃ other, (system.writers.insert operationId { writer with phase := .written }).get wanted =
      some other ∧ _
    rw [get_insert]
    split
    · rename_i same
      subst same
      rw [found] at isOwner
      cases isOwner
      exact ⟨_, rfl, nofun, matched⟩
    · exact ⟨owner, isOwner, notReading, matched⟩
  · intro wanted other isOther isOutstanding
    rcases got wanted other isOther with ⟨_, rfl⟩ | ⟨_, older⟩
    · cases isOutstanding
    · exact accounting.marked wanted other older isOutstanding
  · intro wanted other kept isOther isKept unmarked
    rcases got wanted other isOther with ⟨rfl, rfl⟩ | ⟨_, older⟩
    · obtain ⟨reservation, reserved, started⟩ := accounting.marked wanted writer found outstanding
      rw [show system.ledger.reservations.get wanted = some kept from isKept] at reserved
      cases reserved
      rw [started] at unmarked
      cases unmarked
    · exact accounting.unmarked wanted other kept older isKept unmarked
  · intro wanted other isOther holds beforeWrite
    rcases got wanted other isOther with ⟨_, rfl⟩ | ⟨different, older⟩
    · cases beforeWrite
    · have elsewhere : other.slot ≠ writer.slot := by
        intro sameSlot
        have sameObject : other.object = writer.object :=
          congrArg (fun slot => (ofLex slot).1) sameSlot
        exact different
          (accounting.exclusive wanted operationId other writer older found holds locked sameObject)
      rw [accounting.current wanted other older holds beforeWrite]
      unfold replacedLogicalSize setWriter
      dsimp only
      rw [get_insert, if_neg elsewhere]
  · intro wanted other first second isFirst isSecond holds otherHolds sameObject
    rcases got wanted first isFirst with ⟨rfl, rfl⟩ | ⟨_, older⟩
    · rcases got other second isSecond with ⟨rfl, rfl⟩ | ⟨_, otherOlder⟩
      · rfl
      · exact accounting.exclusive wanted other writer second found otherOlder holds otherHolds sameObject
    · rcases got other second isSecond with ⟨rfl, rfl⟩ | ⟨_, otherOlder⟩
      · exact accounting.exclusive wanted other first writer older found holds otherHolds sameObject
      · exact accounting.exclusive wanted other first second older otherOlder holds otherHolds sameObject
  · obtain ⟨reservation, reserved, _, _⟩ := accounting.outstanding_reservation found outstanding
    have charged := accounting.charged_write found locked outstanding
    have nothing : openGrowth (system.writers.insert operationId { writer with phase := .written })
        operationId reservation = 0 := by
      unfold openGrowth
      rw [get_insert, if_pos rfl]
      rfl
    have others : (system.ledger.reservations.remove operationId).total
        (openGrowth (system.writers.insert operationId { writer with phase := .written })) =
          (system.ledger.reservations.remove operationId).total (openGrowth system.writers) := by
      apply total_congr
      intro wanted kept isKept
      apply open_growth_congr
      rw [get_remove] at isKept
      split at isKept
      · cases isKept
      · rename_i different
        rw [get_insert, if_neg different]
    unfold setWriter
    dsimp only
    rw [total_of_found reserved, nothing, others, Nat.zero_add]
    exact charged

end

end Write

end Accounting

end QuotaSystem

namespace QuotaSystem

variable {quotaLimit : Nat} {system : QuotaSystem} {operationId : OperationId}
  {ledger : QuotaLedger} {orphanIds : List OperationId}

/-- No write of the operation is on its way. It may have been written already, or never will
be. -/
def Stopped (system : QuotaSystem) (operationId : OperationId) : Prop :=
  ∀ writer, system.writers.get operationId = some writer → writer.outstanding = false

theorem fence_all_ledger (objects : List String) (system : QuotaSystem) :
    (system.fenceAll objects).ledger = system.ledger ∧
      (system.fenceAll objects).sizes = system.sizes := by
  induction objects generalizing system with
  | nil => exact ⟨rfl, rfl⟩
  | cons object objects ih => exact ih (system.fence object)

theorem Accounting.fence_all (objects : List String) (accounting : Accounting quotaLimit system) :
    Accounting quotaLimit (system.fenceAll objects) := by
  induction objects generalizing system with
  | nil => exact accounting
  | cons object objects ih => exact ih (accounting.fence object)

theorem Stopped.fence (stopped : system.Stopped operationId)
    (object : String) : (system.fence object).Stopped operationId := by
  intro after found
  unfold QuotaSystem.fence at found
  rw [get_map_values] at found
  obtain ⟨writer, wasFound, rfl⟩ := Option.map_eq_some_iff.1 found
  cases isOutstanding : (writer.fence object).outstanding with
  | false => rfl
  | true =>
    rw [← stopped writer wasFound]
    exact (Writer.outstanding_of_fence isOutstanding).symm

theorem Stopped.fence_all (objects : List String)
    (stopped : system.Stopped operationId) : (system.fenceAll objects).Stopped operationId := by
  induction objects generalizing system with
  | nil => exact stopped
  | cons object objects ih => exact ih (stopped.fence object)

theorem fence_all_stops {objects : List String} (fenced : object ∈ objects)
    (here : ∀ writer, system.writers.get operationId = some writer → writer.object = object) :
    (system.fenceAll objects).Stopped operationId := by
  induction objects generalizing system with
  | nil => cases fenced
  | cons first objects ih =>
    change ((system.fence first).fenceAll objects).Stopped operationId
    rcases List.mem_cons.1 fenced with rfl | later
    · apply Stopped.fence_all
      intro after found
      unfold QuotaSystem.fence at found
      rw [get_map_values] at found
      obtain ⟨writer, wasFound, rfl⟩ := Option.map_eq_some_iff.1 found
      exact Writer.fence_stops (here writer wasFound)
    · apply ih later
      intro after found
      unfold QuotaSystem.fence at found
      rw [get_map_values] at found
      obtain ⟨writer, wasFound, rfl⟩ := Option.map_eq_some_iff.1 found
      rw [← here writer wasFound]
      unfold Writer.object
      rw [(Writer.follows_fence writer first).reservation]

theorem mem_orphan_commit_targets (orphan : operationId ∈ orphanIds)
    (reserved : ledger.reservations.get operationId = some reservation)
    (started : reservation.commitStarted = true) :
    reservation.object ∈ ledger.orphanCommitTargets orphanIds := by
  refine List.mem_filterMap.2 ⟨reservation, List.mem_filterMap.2 ⟨operationId, orphan, reserved⟩, ?_⟩
  rw [if_pos started]

theorem Accounting.remove_orphan (accounting : Accounting quotaLimit system)
    (stopped : ∀ reservation, system.ledger.reservations.get operationId = some reservation →
      reservation.commitStarted = true → system.Stopped operationId)
    (updated : system.ledger.removeOrphan operationId = .ok ledger) :
    Accounting quotaLimit { system with ledger } ∧
      ∀ wanted kept, ledger.reservations.get wanted = some kept →
        system.ledger.reservations.get wanted = some kept := by
  have older : ∀ wanted kept,
      (system.ledger.reservations.remove operationId).get wanted = some kept →
        system.ledger.reservations.get wanted = some kept := by
    intro wanted kept isKept
    rw [get_remove] at isKept
    split at isKept
    · cases isKept
    · exact isKept
  unfold QuotaLedger.removeOrphan at updated
  split at updated
  · cases updated
    exact ⟨accounting, fun _ _ kept => kept⟩
  · rename_i reservation reserved
    split at updated
    · rename_i started
      cases updated
      exact ⟨accounting.removed reserved (stopped reservation reserved started) rfl le_rfl
        (Nat.le_add_right _ _), older⟩
    · rename_i notStarted
      rw [Bool.not_eq_true] at notStarted
      rcases QuotaLedger.abort_ok updated with rfl | ⟨found, isFound, removed, accounted⟩
      · exact ⟨accounting, fun _ _ kept => kept⟩
      · rw [reserved] at isFound
        cases isFound
        obtain ⟨writer, isWriter, _⟩ := accounting.owned operationId reservation reserved
        have unwritten := accounting.unmarked operationId writer reservation isWriter reserved notStarted
        have isOpen : openGrowth system.writers operationId reservation = reservation.growth := by
          unfold openGrowth
          rw [isWriter, Option.any_some, unwritten]
          rfl
        refine ⟨accounting.removed reserved ?_ removed ?_ ?_, ?_⟩
        · intro other isOther
          cases outstanding : other.outstanding with
          | false => rfl
          | true =>
            obtain ⟨kept, isKept, started⟩ := accounting.marked operationId other isOther outstanding
            rw [reserved] at isKept
            cases isKept
            rw [started] at notStarted
            cases notStarted
        · omega
        · omega
        · rw [removed]
          exact older

theorem Accounting.remove_orphans (orphanIds : List OperationId)
    (accounting : Accounting quotaLimit system) (stopped : ∀ operationId ∈ orphanIds, ∀ reservation,
      system.ledger.reservations.get operationId = some reservation →
        reservation.commitStarted = true → system.Stopped operationId)
    (updated : system.ledger.removeOrphanReservations orphanIds = .ok ledger) :
    Accounting quotaLimit { system with ledger } := by
  induction orphanIds generalizing system with
  | nil =>
    cases updated
    exact accounting
  | cons operationId orphanIds ih =>
    obtain ⟨next, removed, rest⟩ := Outcome.bind_eq_ok.1 updated
    obtain ⟨kept, older⟩ := accounting.remove_orphan (stopped operationId List.mem_cons_self) removed
    apply ih kept
    · intro later isLater reservation reserved
      exact stopped later (List.mem_cons_of_mem _ isLater) reservation (older later reservation reserved)
    · exact rest

theorem Accounting.reap (accounting : Accounting quotaLimit system)
    {nextCursor : Option OperationId}
    (updated : system.ledger.reapLocked system.logicalUsage orphanIds nextCursor = .ok ledger) :
    Accounting quotaLimit
      { system.fenceAll (system.ledger.orphanCommitTargets orphanIds) with ledger } := by
  obtain ⟨_, loaded, updated⟩ := Outcome.bind_eq_ok.1 updated
  cases QuotaLedger.load_ok loaded
  obtain ⟨cleared, removed, reconciled⟩ := Outcome.bind_eq_ok.1 updated
  obtain ⟨sameLedger, sameSizes⟩ :=
    fence_all_ledger (system.ledger.orphanCommitTargets orphanIds) system
  have fenced := accounting.fence_all (system.ledger.orphanCommitTargets orphanIds)
  have stopped : ∀ operationId ∈ orphanIds, ∀ reservation,
      system.ledger.reservations.get operationId = some reservation →
        reservation.commitStarted = true →
          (system.fenceAll (system.ledger.orphanCommitTargets orphanIds)).Stopped operationId := by
    intro operationId orphan reservation reserved started
    apply fence_all_stops (mem_orphan_commit_targets orphan reserved started)
    intro writer found
    obtain ⟨owner, isOwner, _, matched⟩ := accounting.owned operationId reservation reserved
    rw [found] at isOwner
    cases isOwner
    exact (growth_of_matches matched).1.symm
  generalize system.fenceAll (system.ledger.orphanCommitTargets orphanIds) = stoppedSystem at *
  have sameUsage : stoppedSystem.logicalUsage = system.logicalUsage := by
    unfold logicalUsage
    rw [sameSizes]
  have moved : Accounting quotaLimit { stoppedSystem with
      ledger := { system.ledger with reapCursor := nextCursor.or system.ledger.reapCursor } } := by
    rw [← sameLedger]
    exact ⟨fenced.owned, fenced.marked, fenced.unmarked, fenced.current, fenced.exclusive,
      fenced.charged, fenced.admitted⟩
  have afterRemoval := moved.remove_orphans orphanIds stopped removed
  unfold QuotaLedger.reconcileWhenIdle at reconciled
  split at reconciled
  · rw [← sameUsage] at reconciled
    exact afterRemoval.reconciled reconciled
  · cases reconciled
    exact afterRemoval

section Steps

variable {operationId : OperationId} {writer : Writer} {ledger : QuotaLedger} {after : WriterPhase}

theorem get_set_writer (system : QuotaSystem) (operationId : OperationId) (writer : Writer) :
    (system.setWriter operationId writer).writers.get operationId = some writer := by
  unfold setWriter
  rw [get_insert, if_pos rfl]

section

variable (accounting : Accounting quotaLimit system)
  (found : system.writers.get operationId = some writer)

include accounting found

theorem Accounting.reserve (phase : writer.phase = .reading)
    (updated : system.ledger.reserveLocked quotaLimit system.logicalUsage operationId
      writer.reservation = .ok ledger) (goesOn : after = .reserved ∨ after = .aborted) :
    Accounting quotaLimit
      ({ system with ledger }.setWriter operationId { writer with phase := after }) := by
  obtain ⟨counted, howCounted, reservations, accounted, within⟩ := QuotaLedger.reserve_ok updated
  have absent : system.ledger.reservations.get operationId = none := by
    cases reserved : system.ledger.reservations.get operationId with
    | none => rfl
    | some reservation =>
      obtain ⟨owner, isOwner, notReading, _⟩ := accounting.owned operationId reservation reserved
      rw [found] at isOwner
      cases isOwner
      exact absurd phase notReading
  have follows : ({ writer with phase := after } : Writer).Follows writer := by
    rcases goesOn with rfl | rfl
    · exact Writer.follows_phase (by simp [Writer.hasWritten, phase]) (by decide)
        (by simp [Writer.beforeWrite, phase])
    · exact Writer.follows_phase (by simp [Writer.hasWritten, phase]) (by decide)
        (by simp [Writer.beforeWrite])
  have notOutstanding : ({ writer with phase := after } : Writer).outstanding ≠ true := by
    rcases goesOn with rfl | rfl
    all_goals simp [Writer.outstanding]
  have moved := accounting.set_writer found follows fun outstanding => absurd outstanding notOutstanding
  have recounted : Accounting quotaLimit
      { system.setWriter operationId { writer with phase := after } with ledger := counted } := by
    rcases howCounted with rfl | reconciled
    · exact moved
    · exact moved.reconciled reconciled
  have stillAbsent : counted.reservations.get operationId = none := by
    rcases howCounted with rfl | reconciled
    · exact absent
    · unfold QuotaLedger.reconcileExact at reconciled
      split at reconciled
      · cases reconciled
      · cases reconciled
        exact absent
  refine recounted.reserved (get_set_writer _ _ _) ?_ ?_ stillAbsent reservations accounted within
  · rcases goesOn with rfl | rfl
    all_goals simp
  · rcases goesOn with rfl | rfl
    all_goals rfl

theorem Accounting.mark_commit_started (phase : writer.phase = .reserved)
    (updated : system.ledger.markCommitStartedLocked operationId writer.reservation = .ok ledger)
    (goesOn : after = .started ∨ after = .aborted) :
    Accounting quotaLimit
      ({ system with ledger }.setWriter operationId { writer with phase := after }) := by
  obtain ⟨reservation, reserved, isUpdated⟩ := QuotaLedger.mark_commit_started_ok updated
  have marked := accounting.commit_started reserved isUpdated
  refine marked.set_writer found ?_ fun _ => ⟨{ reservation with commitStarted := true }, ?_, rfl⟩
  · rcases goesOn with rfl | rfl
    · exact Writer.follows_phase (by simp [Writer.hasWritten, phase]) (by decide)
        (by simp [Writer.beforeWrite, phase])
    · exact Writer.follows_phase (by simp [Writer.hasWritten, phase]) (by decide)
        (by simp [Writer.beforeWrite])
  · rw [isUpdated]
    rw [get_insert, if_pos rfl]

theorem Accounting.commit (phase : writer.phase = .written)
    (updated : system.ledger.settle true operationId writer.reservation = .ok ledger)
    (goesOn : after = .committed ∨ after = .written) :
    Accounting quotaLimit
      ({ system with ledger }.setWriter operationId { writer with phase := after }) := by
  obtain ⟨reservation, reserved, removed, accounted⟩ := QuotaLedger.commit_ok updated
  have follows : ({ writer with phase := after } : Writer).Follows writer := by
    rcases goesOn with rfl | rfl
    all_goals
      exact Writer.follows_phase (by simp [Writer.hasWritten, phase]) (by decide)
        (by simp [Writer.beforeWrite])
  have notOutstanding : ({ writer with phase := after } : Writer).outstanding = false := by
    rcases goesOn with rfl | rfl
    all_goals rfl
  have moved := accounting.set_writer found follows fun outstanding =>
    absurd outstanding (by simp [notOutstanding])
  refine moved.removed reserved ?_ removed accounted.le ?_
  · intro other isOther
    rw [get_set_writer] at isOther
    cases isOther
    exact notOutstanding
  · rw [accounted]
    exact Nat.le_add_right _ _

theorem Accounting.abort (unwritten : writer.hasWritten = false)
    (updated : system.ledger.settle false operationId writer.reservation = .ok ledger) :
    Accounting quotaLimit
      ({ system with ledger }.setWriter operationId { writer with phase := .aborted }) := by
  have moved : Accounting quotaLimit (system.setWriter operationId { writer with phase := .aborted }) :=
    accounting.set_writer found ⟨rfl, rfl, id, unwritten.symm, nofun, nofun⟩ nofun
  rcases QuotaLedger.abort_ok (QuotaLedger.settle_abort_ok updated) with
    rfl | ⟨reservation, reserved, removed, accounted⟩
  · exact moved
  · have isOpen : openGrowth (system.setWriter operationId { writer with phase := .aborted }).writers
        operationId reservation = reservation.growth := by
      unfold openGrowth
      rw [get_set_writer]
      rfl
    refine moved.removed reserved ?_ removed ?_ ?_
    · intro other isOther
      rw [get_set_writer] at isOther
      cases isOther
      rfl
    · change ledger.accountedUsage ≤ system.ledger.accountedUsage
      omega
    · rw [isOpen]
      exact accounted.ge

end

end Steps

theorem Accounting.step {event : Event} {next : QuotaSystem} (accounting : Accounting quotaLimit system)
    (taken : Step quotaLimit system event next) : Accounting quotaLimit next := by
  cases taken with
  | begin fresh unlocked => exact accounting.begin_writer fresh unlocked rfl rfl
  | reserve answered found phase locked updated =>
    apply accounting.reserve found phase updated
    cases answered with
    | false => exact .inr rfl
    | true => exact .inl rfl
  | markCommitStarted answered found phase updated =>
    apply accounting.mark_commit_started found phase updated
    cases answered with
    | false => exact .inr rfl
    | true => exact .inl rfl
  | write found phase locked notCancelled =>
    apply accounting.write found locked
    simp [Writer.outstanding, phase, notCancelled]
  | commit answered found phase updated =>
    apply accounting.commit found phase updated
    cases answered with
    | false => exact .inr rfl
    | true => exact .inl rfl
  | abort found phase updated =>
    apply accounting.abort found _ updated
    rcases phase with phase | phase | phase
    all_goals simp [Writer.hasWritten, phase]
  | @loseObject operationId writer found =>
    exact accounting.set_writer found ⟨rfl, rfl, by simp, rfl, id, id⟩
      fun outstanding => accounting.marked operationId writer found outstanding
  | @loseOperation operationId writer found =>
    exact accounting.set_writer found ⟨rfl, rfl, id, rfl, id, id⟩
      fun outstanding => accounting.marked operationId writer found outstanding
  | delete unlocked => exact accounting.delete unlocked
  | probe now =>
    exact ⟨accounting.owned, accounting.marked, accounting.unmarked, accounting.current,
      accounting.exclusive, accounting.charged, accounting.admitted⟩
  | fence reading candidate orphaned found started => exact accounting.fence _
  | reap reading needed candidates bounded orphaned updated => exact accounting.reap updated

theorem Accounting.start (isStart : system.IsStart) : Accounting quotaLimit system := by
  have noWriter : ∀ operationId writer, system.writers.get operationId ≠ some writer := by
    intro operationId writer found
    rw [isStart.noWriters] at found
    cases found
  have noReservation : ∀ operationId reservation,
      system.ledger.reservations.get operationId ≠ some reservation := by
    intro operationId reservation reserved
    rw [isStart.exactLedger] at reserved
    cases reserved
  constructor
  · intro operationId reservation reserved
    exact absurd reserved (noReservation operationId reservation)
  · intro operationId writer found
    exact absurd found (noWriter operationId writer)
  · intro operationId writer reservation found
    exact absurd found (noWriter operationId writer)
  · intro operationId writer found
    exact absurd found (noWriter operationId writer)
  · intro operationId other writer otherWriter found
    exact absurd found (noWriter operationId writer)
  · rw [isStart.exactLedger]
    exact le_rfl
  · intro operationId reservation reserved
    exact absurd reserved (noReservation operationId reservation)

theorem Reachable.accounting {start : QuotaSystem} (isStart : start.IsStart)
    (reached : Reachable quotaLimit start system) : Accounting quotaLimit system := by
  induction reached with
  | start => exact Accounting.start isStart
  | step _ taken ih => exact ih.step taken

theorem outstanding_growth_le (system : QuotaSystem) :
    system.outstandingGrowth ≤ system.ledger.reservations.total (openGrowth system.writers) := by
  apply total_mono
  intro operationId reservation _
  unfold openGrowth
  cases system.writers.get operationId with
  | none => exact le_rfl
  | some writer =>
    rw [Option.any_some, Option.any_some]
    cases writer.hasWritten with
    | true => exact le_rfl
    | false =>
      split
      · exact Nat.zero_le _
      · exact le_rfl

/-- In every run the ledger accounts for the usage and the writes to come, and a write that
grows the bucket keeps it within the limit. -/
theorem every_run_within_quota (quotaLimit : Nat) (start : QuotaSystem) (isStart : start.IsStart)
    (system : QuotaSystem) (reached : Reachable quotaLimit start system) :
    system.logicalUsage + system.outstandingGrowth ≤ system.ledger.accountedUsage ∧
      ∀ operationId writer next, system.writers.get operationId = some writer →
        Step quotaLimit system (.write operationId) next → 0 < writer.growth →
          next.logicalUsage ≤ quotaLimit := by
  have accounting := reached.accounting isStart
  refine ⟨(Nat.add_le_add_left (outstanding_growth_le system) _).trans accounting.charged, ?_⟩
  intro operationId writer next isWriter taken grows
  cases taken with
  | write found phase locked notCancelled =>
    rw [isWriter] at found
    cases found
    have outstanding : writer.outstanding = true := by
      simp [Writer.outstanding, phase, notCancelled]
    obtain ⟨reservation, reserved, sameGrowth, _⟩ :=
      accounting.outstanding_reservation isWriter outstanding
    have within := accounting.admitted operationId reservation reserved (sameGrowth ▸ grows)
    have charged := accounting.charged_write isWriter locked outstanding
    exact ((Nat.le_add_right _ _).trans charged).trans within

def emptyBucket : QuotaSystem := ⟨KeyMap.empty, QuotaLedger.new 0, KeyMap.empty, []⟩

def fiveBytes : PersistedReservation := ⟨"a", 0, 5, 0, false⟩

def fiveByteWriter (phase : WriterPhase) : Writer := ⟨"null", fiveBytes, phase, true, true, false⟩

def begunBucket : QuotaSystem := emptyBucket.setWriter 1 (fiveByteWriter .reading)

def reservedBucket : QuotaSystem :=
  { begunBucket with ledger := ⟨5, KeyMap.empty.insert 1 fiveBytes, false, none⟩ }.setWriter 1
    (fiveByteWriter .reserved)

def startedBucket : QuotaSystem :=
  { reservedBucket with
    ledger := ⟨5, KeyMap.empty.insert 1 { fiveBytes with commitStarted := true }, false, none⟩ }.setWriter 1
      (fiveByteWriter .started)

def writtenBucket : QuotaSystem :=
  { startedBucket with sizes := KeyMap.empty.insert (fiveByteWriter .started).slot 5 }.setWriter 1
    (fiveByteWriter .written)

theorem started_bucket_reachable : Reachable 5 emptyBucket startedBucket := by
  have begun : Step 5 emptyBucket (.begin 1) begunBucket := .begin rfl nofun
  have reserved : Step 5 begunBucket (.reserve 1) reservedBucket :=
    .reserve true (get_set_writer emptyBucket 1 (fiveByteWriter .reading)) rfl rfl (by decide)
  have started : Step 5 reservedBucket (.markCommitStarted 1) startedBucket :=
    .markCommitStarted true (get_set_writer _ 1 (fiveByteWriter .reserved)) rfl (by decide)
  exact ((Reachable.start.step begun).step reserved).step started

theorem five_bytes_within_quota : writtenBucket.logicalUsage ≤ 5 := by
  have written : Step 5 startedBucket (.write 1) writtenBucket :=
    .write (get_set_writer _ 1 (fiveByteWriter .started)) rfl rfl rfl
  exact (every_run_within_quota 5 emptyBucket ⟨rfl, rfl, rfl⟩ startedBucket
    started_bucket_reachable).2 1 (fiveByteWriter .started) writtenBucket rfl written (by decide)

end QuotaSystem

end Rustfs.Ecstore.Quota
