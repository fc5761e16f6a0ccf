import Rustfs.Ecstore.DiskError
import Rustfs.Filemeta.Metacache
import Rustfs.Library.SortedMerge
import Mathlib.Algebra.Order.BigOperators.Group.List
import Mathlib.Data.List.Forall2
import Mathlib.Data.List.Perm.Basic

/-!
# The walk of the drives

The merge loop of `list_path_raw_inner` in `ecstore/src/cache_value/metacache_set.rs`. Every drive
streams its entries to a reader. In a round each reader without a held entry is peeked, the heads
are looked at in the order of the drives, and the entries of the least name are handed over. A
reader is the list of its entries and how it ends. The producers, their fallback drives, timeouts as
time and cancellation are left out.
-/

namespace Rustfs.Ecstore

open List Filemeta Library.SortedMerge

/-- The errors of a peek that the merge tells apart. -/
inductive PeekError where
  | unexpected
  | ioEof
  | fileNotFound
  | volumeNotFound
  | other (err : DiskError)
  deriving DecidableEq

inductive PeekOutcome where
  | ready (entry : Option MetaCacheEntry)
  | error (err : PeekError)
  | timedOut

/-- What a reader answers behind the last entry of its stream. -/
inductive StreamEnd where
  | closed
  | error (err : PeekError)
  | timedOut
  deriving DecidableEq

def StreamEnd.outcome : StreamEnd → PeekOutcome
  | .closed => .ready none
  | .error err => .error err
  | .timedOut => .timedOut

/-- What a drive delivers, and the error that its producer recorded when it gave up. -/
structure DriveStream where
  entries : List MetaCacheEntry
  ending : StreamEnd
  producerErr : Option DiskError

/-- A reader with its slots of `errs`, `pending_entries` and `peek_outcomes`. `head` is the entry
that was peeked and not skipped. -/
structure WalkReader where
  rest : List MetaCacheEntry
  ending : StreamEnd
  producerErr : Option DiskError
  head : Option MetaCacheEntry
  err : Option DiskError
  pending : Option MetaCacheEntry
  outcome : Option PeekOutcome

namespace WalkReader

def ofDrive (drive : DriveStream) : WalkReader :=
  ⟨drive.entries, drive.ending, drive.producerErr, none, none, none, none⟩

def needsPeek (reader : WalkReader) : Bool := reader.err.isNone && reader.pending.isNone

/-- A peek reads the next entry, whether the last one was skipped or not. -/
def peek (reader : WalkReader) : WalkReader :=
  match reader.rest with
  | [] => { reader with outcome := some reader.ending.outcome }
  | entry :: rest =>
    { reader with rest := rest, head := some entry, outcome := some (.ready (some entry)) }

/-- `skip(1)`. -/
def skip (reader : WalkReader) : WalkReader :=
  if reader.head.isSome then { reader with head := none }
  else { reader with rest := reader.rest.tail }

end WalkReader

/-- What a reader contributes to a round. -/
inductive Offer where
  | known
  | entry (entry : MetaCacheEntry)
  | eof
  | fileNotFound
  | volumeNotFound
  | failed (err : DiskError)

def offerOf (producerErr : Option DiskError) : PeekOutcome → Offer
  | .ready (some entry) => .entry entry
  | .ready none =>
    match producerErr with
    | some err => .failed err
    | none => .eof
  | .error peekErr =>
    match producerErr, peekErr with
    | some err, _ => .failed err
    | none, .unexpected => .eof
    | none, .ioEof => .eof
    | none, .fileNotFound => .fileNotFound
    | none, .volumeNotFound => .volumeNotFound
    | none, .other err => .failed err
  | .timedOut => .failed .timeout

namespace WalkReader

/-- The known error, else the pending entry, else the outcome of the peek. -/
def offer (reader : WalkReader) : Option Offer :=
  if reader.err.isSome then some .known
  else
    match reader.pending with
    | some entry => some (.entry entry)
    | none => reader.outcome.map (offerOf reader.producerErr)

def taken (reader : WalkReader) : WalkReader :=
  if reader.err.isSome then reader
  else if reader.pending.isSome then { reader with pending := none }
  else { reader with outcome := none }

/-- An entry of the group that was given up waits for a later round. -/
def giveBack (reader : WalkReader) (top : Option MetaCacheEntry) : WalkReader :=
  match top with
  | some entry => { reader with pending := some entry }
  | none => reader

end WalkReader

/-- The locals of a round. The readers looked at so far stand with their slot of `top_entries`. -/
structure WalkScan where
  visited : List (WalkReader × Option MetaCacheEntry)
  current : MetaCacheEntry
  atEof : Nat
  fnf : Nat
  vnf : Nat
  hasErr : Nat
  agree : Nat

namespace WalkScan

def start : WalkScan := ⟨[], ⟨"", [], none, false⟩, 0, 0, 0, 0, 0⟩

def push (scan : WalkScan) (reader : WalkReader) (top : Option MetaCacheEntry) : WalkScan :=
  { scan with visited := scan.visited ++ [(reader, top)] }

/-- An entry joins the group of the least name so far, waits for a later round, or starts a group of
its own. -/
def place (hash : Hash) (scan : WalkScan) (reader : WalkReader) (entry : MetaCacheEntry) : WalkScan :=
  if scan.current.name.isEmpty then
    { scan.push reader (some entry) with current := entry, agree := scan.agree + 1 }
  else if (scan.current.matchesEntry hash (some entry) true).2 then
    { scan.push reader (some entry) with agree := scan.agree + 1 }
  else if entry.name = scan.current.name then scan.push reader (some entry)
  else if scan.current.name < entry.name then scan.push { reader with pending := some entry } none
  else
    { scan with
      visited := (scan.visited.map fun seen => (seen.1.giveBack seen.2, none)) ++ [(reader, some entry)]
      current := entry
      agree := 1 }

def visit (hash : Hash) (scan : WalkScan) (reader : WalkReader) : Except DiskError WalkScan :=
  match reader.offer with
  | none => .error .unexpected
  | some .known => .ok { scan.push reader none with hasErr := scan.hasErr + 1 }
  | some (.entry entry) => .ok (scan.place hash reader.taken entry)
  | some .eof => .ok { scan.push reader.taken none with atEof := scan.atEof + 1 }
  | some .fileNotFound =>
    .ok { scan.push reader.taken none with atEof := scan.atEof + 1, fnf := scan.fnf + 1 }
  | some .volumeNotFound =>
    .ok { scan.push reader.taken none with
      atEof := scan.atEof + 1, fnf := scan.fnf + 1, vnf := scan.vnf + 1 }
  | some (.failed err) =>
    .ok { scan.push { reader.taken with err := some err } none with hasErr := scan.hasErr + 1 }

end WalkScan

inductive HandedOver where
  | agreedFn (entry : MetaCacheEntry)
  | partialFn (entries : List (Option MetaCacheEntry))

inductive WalkEnd where
  | ok
  | failed (err : DiskError)
  deriving DecidableEq

/-- `partialResult` is the error of the callback for a group, if it has one. -/
structure WalkOptions where
  hash : Hash
  minDisks : Nat
  preserveReplicaMetadata : Bool
  partialResult : List (Option MetaCacheEntry) → List (Option DiskError) → Option DiskError

structure WalkState where
  readers : List WalkReader
  handed : List (String × HandedOver)
  ended : Option WalkEnd

def classifyListingQuorumFailure (errors : List DiskError) : DiskError :=
  if errors.any (DiskError.same .timeout) then .timeout
  else
    match errors with
    | [] => .erasureReadQuorum
    | first :: _ =>
      match first with
      | .io _ _ => .erasureReadQuorum
      | first => if errors.all fun err => err.same first then first else .erasureReadQuorum

namespace WalkState

def start (options : WalkOptions) (drives : List DriveStream) : WalkState where
  readers := drives.map WalkReader.ofDrive
  handed := []
  ended :=
    if drives.isEmpty || drives.length < options.minDisks then some (.failed .erasureReadQuorum)
    else none

def toPeek (readers : List WalkReader) : List Nat :=
  (List.range readers.length).filter fun idx => (readers[idx]?).any WalkReader.needsPeek

def peekAll (order : List Nat) (readers : List WalkReader) : List WalkReader :=
  order.foldl (fun readers idx => readers.modify idx WalkReader.peek) readers

def finishRound (options : WalkOptions) (state : WalkState) (scan : WalkScan) : WalkState :=
  let readers := scan.visited.map Prod.fst
  let errs := readers.map WalkReader.err
  let tops := scan.visited.map Prod.snd
  let tolerated := readers.length - options.minDisks
  if 0 < scan.vnf ∧ tolerated ≤ scan.vnf then
    { state with readers := readers, ended := some (.failed .volumeNotFound) }
  else if 0 < scan.fnf ∧ tolerated ≤ scan.fnf then
    { state with readers := readers, ended := some (.failed .fileNotFound) }
  else if 0 < scan.hasErr ∧ tolerated < scan.hasErr then
    { state with
      readers := readers
      ended := some (.failed (classifyListingQuorumFailure (errs.filterMap id))) }
  else if scan.atEof + scan.hasErr = readers.length then
    { state with readers := readers, ended := some .ok }
  else if scan.agree = readers.length ∧ options.preserveReplicaMetadata = false then
    { state with
      readers := readers.map WalkReader.skip
      handed := state.handed ++ [(scan.current.name, .agreedFn scan.current)] }
  else
    { readers := scan.visited.map fun seen => if seen.2.isSome then seen.1.skip else seen.1
      handed := state.handed ++ [(scan.current.name, .partialFn tops)]
      ended := (options.partialResult tops errs).map .failed }

def round (options : WalkOptions) (order : List Nat) (state : WalkState) : WalkState :=
  match (peekAll order state.readers).foldlM (WalkScan.visit options.hash) .start with
  | .error err => { state with ended := some (.failed err) }
  | .ok scan => state.finishRound options scan

/-- The state after so many rounds. `schedule` says in which order the peeks of a round are
answered. -/
def walkRounds (options : WalkOptions) (schedule : Nat → List Nat → List Nat)
    (drives : List DriveStream) : Nat → WalkState
  | 0 => start options drives
  | count + 1 =>
    let state := walkRounds options schedule drives count
    if state.ended.isSome then state
    else state.round options (schedule count (toPeek state.readers))

end WalkState

/-- A reader whose peek was answered, if it was peeked. -/
def WalkReader.ready (reader : WalkReader) : WalkReader :=
  if reader.needsPeek then reader.peek else reader

variable {order : List Nat} {readers : List WalkReader} {seen : WalkReader × Option MetaCacheEntry}

namespace WalkState

theorem peek_all_get (once : order.Nodup) (readers : List WalkReader) (idx : Nat) :
    (peekAll order readers)[idx]? =
      if idx ∈ order then readers[idx]?.map WalkReader.peek else readers[idx]? := by
  unfold peekAll
  induction order generalizing readers with
  | nil => rfl
  | cons first rest ih =>
    obtain ⟨notFirst, restOnce⟩ := nodup_cons.1 once
    rw [foldl_cons, ih restOnce, getElem?_modify]
    by_cases same : first = idx
    · subst same
      rw [if_neg notFirst, if_pos mem_cons_self]
      simp only [if_true]
      rfl
    · have inRest : idx ∈ first :: rest ↔ idx ∈ rest := by
        rw [mem_cons, or_iff_right (Ne.symm same)]
      simp only [if_neg same, inRest, id_map']

theorem peek_all_eq
    (fair : order.Perm (toPeek readers)) : peekAll order readers = readers.map WalkReader.ready := by
  have once : order.Nodup := fair.nodup_iff.2 (nodup_range.filter _)
  apply ext_getElem?
  intro idx
  rw [peek_all_get once, getElem?_map]
  cases isReader : readers[idx]? with
  | none => simp
  | some reader =>
    have inside : idx < readers.length := (List.getElem?_eq_some_iff.1 isReader).1
    have member : idx ∈ order ↔ reader.needsPeek = true := by
      rw [fair.mem_iff, toPeek, mem_filter, mem_range, isReader]
      exact and_iff_right inside
    unfold WalkReader.ready
    by_cases peeked : reader.needsPeek = true
    · rw [if_pos (member.2 peeked), Option.map_some, Option.map_some, if_pos peeked]
    · rw [if_neg (fun isMember => peeked (member.1 isMember)), Option.map_some, if_neg peeked]

end WalkState

def Offer.isFailed : Offer → Bool
  | .failed _ => true
  | _ => false

def Offer.isMissing : Offer → Bool
  | .fileNotFound | .volumeNotFound => true
  | _ => false

def Offer.isVolumeMissing : Offer → Bool
  | .volumeNotFound => true
  | _ => false

namespace DriveStream

/-- What a drive answers when its entries are used up. -/
def lastOffer (drive : DriveStream) : Offer := offerOf drive.producerErr drive.ending.outcome

def fails (drive : DriveStream) : Bool := drive.lastOffer.isFailed

/-- Nothing is left behind the last name. -/
def usedUp (last : WithBot String) (drive : DriveStream) : Bool :=
  (remainder MetaCacheEntry.name last drive.entries).isEmpty

theorem last_offer_cases (drive : DriveStream) :
    drive.lastOffer = .eof ∨ drive.lastOffer = .fileNotFound ∨ drive.lastOffer = .volumeNotFound ∨
      ∃ err, drive.lastOffer = .failed err := by
  unfold lastOffer
  cases drive.ending with
  | closed => cases drive.producerErr <;> simp [StreamEnd.outcome, offerOf]
  | timedOut => simp [StreamEnd.outcome, offerOf]
  | error err => cases drive.producerErr <;> cases err <;> simp [StreamEnd.outcome, offerOf]

end DriveStream

/-- Between the rounds a reader holds what is left of its drive. The entry it has peeked is the
first of them. -/
structure Follows (last : WithBot String) (drive : DriveStream) (reader : WalkReader) : Prop where
  left : reader.pending.toList ++ reader.rest = remainder MetaCacheEntry.name last drive.entries
  ending : reader.ending = drive.ending
  producerErr : reader.producerErr = drive.producerErr
  head : reader.head = reader.pending
  outcome : reader.outcome = none
  failed : reader.err.isSome = true → drive.fails = true ∧ reader.pending = none ∧ reader.rest = []

theorem follows_start (drive : DriveStream) : Follows ⊥ drive (.ofDrive drive) where
  left := remainder_start.symm
  ending := rfl
  producerErr := rfl
  head := rfl
  outcome := rfl
  failed := fun failed => by cases failed

theorem ready_cases {last : WithBot String} {drive : DriveStream} {reader : WalkReader}
    (follows : Follows last drive reader) :
    (∃ entry rest, remainder MetaCacheEntry.name last drive.entries = entry :: rest ∧
        reader.err = none ∧ reader.ready.offer = some (.entry entry) ∧
        reader.ready.taken =
          { reader with rest := rest, head := some entry, pending := none, outcome := none }) ∨
      (remainder MetaCacheEntry.name last drive.entries = [] ∧ reader.pending = none ∧ reader.rest = [] ∧
        ((drive.fails = true ∧ reader.ready.offer = some .known ∧ reader.ready = reader) ∨
          (reader.err = none ∧ reader.ready.offer = some drive.lastOffer ∧ reader.ready.taken = reader))) := by
  obtain ⟨rest, ending, producerErr, head, err, pending, outcome⟩ := reader
  obtain ⟨left, isEnding, isProducerErr, isHead, isOutcome, failed⟩ := follows
  dsimp only at left isEnding isProducerErr isHead isOutcome failed
  subst isEnding isProducerErr isHead isOutcome
  cases err with
  | some err =>
    obtain ⟨fails, rfl, rfl⟩ := failed rfl
    refine .inr ⟨left.symm, rfl, rfl, .inl ⟨fails, rfl, rfl⟩⟩
  | none =>
    cases head with
    | some entry => exact .inl ⟨entry, rest, left.symm, rfl, rfl, rfl⟩
    | none =>
      cases rest with
      | nil => exact .inr ⟨left.symm, rfl, rfl, .inr ⟨rfl, rfl, rfl⟩⟩
      | cons entry rest => exact .inl ⟨entry, rest, left.symm, rfl, rfl, rfl⟩

/-- A reader that was looked at, with its entry of the group, while a name is the least one. -/
structure Placed (last : WithBot String) (name : String) (drive : DriveStream)
    (seen : WalkReader × Option MetaCacheEntry) : Prop where
  left : (seen.2.or seen.1.pending).toList ++ seen.1.rest =
    remainder MetaCacheEntry.name last drive.entries
  drained : seen.2.or seen.1.pending = none → seen.1.rest = []
  one : seen.2.isSome = true → seen.1.pending = none
  named : ∀ entry, seen.2 = some entry → entry.name = name
  later : ∀ entry, seen.1.pending = some entry → name < entry.name
  ending : seen.1.ending = drive.ending
  producerErr : seen.1.producerErr = drive.producerErr
  head : seen.1.head = seen.2.or seen.1.pending
  outcome : seen.1.outcome = none
  failed : seen.1.err.isSome = true → drive.fails = true ∧ seen.2.or seen.1.pending = none

def agrees (hash : Hash) (current entry : MetaCacheEntry) : Prop :=
  entry = current ∨ (current.matchesEntry hash (some entry) true).2 = true

/-- The entries of the group that count as the current one. -/
def GroupAgrees (hash : Hash) (scan : WalkScan) (drives : List DriveStream) : Prop :=
  scan.agree = drives.length →
    ∀ seen ∈ scan.visited, ∃ entry, seen.2 = some entry ∧ agrees hash scan.current entry

/-- After the scan of some drives: the group of the least name, and how many drives ended. -/
structure Scanned (hash : Hash) (last : WithBot String) (drives : List DriveStream) (scan : WalkScan) :
    Prop where
  placed : List.Forall₂ (Placed last scan.current.name) drives scan.visited
  fresh : scan.current.name = "" → ∀ seen ∈ scan.visited, seen.2 = none ∧ seen.1.pending = none
  least : scan.current.name ≠ "" →
    ∃ drive ∈ drives, scan.current ∈ remainder MetaCacheEntry.name last drive.entries
  atEof : scan.atEof = drives.countP fun drive => drive.usedUp last && !drive.fails
  hasErr : scan.hasErr = drives.countP fun drive => drive.usedUp last && drive.fails
  fnf : scan.fnf = drives.countP fun drive => drive.usedUp last && drive.lastOffer.isMissing
  vnf : scan.vnf = drives.countP fun drive => drive.usedUp last && drive.lastOffer.isVolumeMissing
  agreeing : scan.agree ≤ drives.length ∧ GroupAgrees hash scan drives

theorem scanned_start (hash : Hash) (last : WithBot String) : Scanned hash last [] .start where
  placed := .nil
  fresh := fun _ seen member => by cases member
  least := fun named => absurd rfl named
  atEof := rfl
  hasErr := rfl
  fnf := rfl
  vnf := rfl
  agreeing := ⟨le_rfl, fun _ seen member => by cases member⟩

section Scan

variable {hash : Hash} {last : WithBot String} {drives : List DriveStream} {scan : WalkScan}
  {drive : DriveStream} {reader : WalkReader} {name : String}

theorem placed_without_entry
    (placed : Placed last name drive seen) (nothing : seen.2 = none ∧ seen.1.pending = none)
    (other : String) : Placed last other drive seen :=
  { placed with
    named := fun entry isEntry => by rw [nothing.1] at isEntry; cases isEntry
    later := fun entry isEntry => by rw [nothing.2] at isEntry; cases isEntry }

theorem placed_given_back
    (placed : Placed last name drive seen) {other : String} (less : other < name) :
    Placed last other drive (seen.1.giveBack seen.2, none) := by
  obtain ⟨reader, top⟩ := seen
  cases top with
  | none =>
    exact { placed with
      named := fun entry isEntry => by cases isEntry
      later := fun entry isEntry => less.trans (placed.later entry isEntry) }
  | some entry =>
    refine ⟨placed.left, ?_, ?_, ?_, ?_, placed.ending, placed.producerErr, placed.head,
      placed.outcome, ?_⟩
    · intro nothing
      cases nothing
    · intro held
      cases held
    · intro other isOther
      cases isOther
    · intro other isOther
      cases isOther
      rw [placed.named entry rfl]
      exact less
    · intro failed
      have nothing := (placed.failed failed).2
      cases nothing

theorem matches_same_name {current entry : MetaCacheEntry}
    (same : (current.matchesEntry hash (some entry) true).2 = true) : current.name = entry.name := by
  by_contra different
  unfold MetaCacheEntry.matchesEntry at same
  dsimp only at same
  rw [if_pos different] at same
  cases same

theorem scanned_used_up (scanned : Scanned hash last drives scan)
    (placed : ∀ name, Placed last name drive (reader, none)) (nothing : reader.pending = none)
    (empty : remainder MetaCacheEntry.name last drive.entries = []) :
    Scanned hash last (drives ++ [drive])
      { scan.push reader none with
        atEof := scan.atEof + if drive.fails then 0 else 1
        hasErr := scan.hasErr + if drive.fails then 1 else 0
        fnf := scan.fnf + if drive.lastOffer.isMissing then 1 else 0
        vnf := scan.vnf + if drive.lastOffer.isVolumeMissing then 1 else 0 } := by
  have usedUp : drive.usedUp last = true := by
    unfold DriveStream.usedUp
    rw [empty]
    rfl
  refine ⟨rel_append scanned.placed (.cons (placed _) .nil), ?_, ?_, ?_, ?_, ?_, ?_, ?_, ?_⟩
  · intro unnamed seen member
    rcases mem_append.1 member with old | new
    · exact scanned.fresh unnamed seen old
    · rw [mem_singleton.1 new]
      exact ⟨rfl, nothing⟩
  · intro named
    obtain ⟨other, isOther, isLeft⟩ := scanned.least named
    exact ⟨other, mem_append_left _ isOther, isLeft⟩
  · rw [countP_append, countP_singleton, usedUp, ← scanned.atEof]
    cases drive.fails <;> rfl
  · rw [countP_append, countP_singleton, usedUp, ← scanned.hasErr]
    cases drive.fails <;> rfl
  · rw [countP_append, countP_singleton, usedUp, ← scanned.fnf]
    cases drive.lastOffer.isMissing <;> rfl
  · rw [countP_append, countP_singleton, usedUp, ← scanned.vnf]
    cases drive.lastOffer.isVolumeMissing <;> rfl
  · rw [length_append]
    exact scanned.agreeing.1.trans (Nat.le_add_right _ _)
  · intro all
    rw [length_append, length_singleton] at all
    have few := scanned.agreeing.1
    unfold WalkScan.push at all
    dsimp only at all
    omega

theorem scanned_entry {next : WalkScan} (scanned : Scanned hash last drives scan)
    (left : remainder MetaCacheEntry.name last drive.entries ≠ [])
    (counts : next.atEof = scan.atEof ∧ next.hasErr = scan.hasErr ∧ next.fnf = scan.fnf ∧
      next.vnf = scan.vnf) (named : next.current.name ≠ "")
    (placed : List.Forall₂ (Placed last next.current.name) (drives ++ [drive]) next.visited)
    (least : ∃ other ∈ drives ++ [drive],
      next.current ∈ remainder MetaCacheEntry.name last other.entries)
    (few : next.agree ≤ drives.length + 1) (agreeing : GroupAgrees hash next (drives ++ [drive])) :
    Scanned hash last (drives ++ [drive]) next := by
  have usedUp : drive.usedUp last = false := by
    unfold DriveStream.usedUp
    rw [isEmpty_eq_false_iff]
    exact left
  obtain ⟨atEof, hasErr, fnf, vnf⟩ := counts
  refine ⟨placed, fun unnamed => absurd unnamed named, fun _ => least, ?_, ?_, ?_, ?_, ?_, agreeing⟩
  · rw [countP_append, countP_singleton, usedUp, ← scanned.atEof, atEof]
    rfl
  · rw [countP_append, countP_singleton, usedUp, ← scanned.hasErr, hasErr]
    rfl
  · rw [countP_append, countP_singleton, usedUp, ← scanned.fnf, fnf]
    rfl
  · rw [countP_append, countP_singleton, usedUp, ← scanned.vnf, vnf]
    rfl
  · rw [length_append]
    exact few

theorem scanned_place {entry : MetaCacheEntry} {rest : List MetaCacheEntry}
    (scanned : Scanned hash last drives scan)
    (isLeft : remainder MetaCacheEntry.name last drive.entries = entry :: rest)
    (placed : Placed last entry.name drive (reader, some entry)) (nonEmpty : entry.name ≠ "") :
    Scanned hash last (drives ++ [drive]) (scan.place hash reader entry) := by
  have left : remainder MetaCacheEntry.name last drive.entries ≠ [] := by
    rw [isLeft]
    exact cons_ne_nil _ _
  have newest : ∃ other ∈ drives ++ [drive],
      entry ∈ remainder MetaCacheEntry.name last other.entries := by
    refine ⟨drive, mem_append_right _ mem_cons_self, ?_⟩
    rw [isLeft]
    exact mem_cons_self
  have few := scanned.agreeing.1
  have notAll : ∀ next : WalkScan, next.agree ≤ drives.length → GroupAgrees hash next (drives ++ [drive]) := by
    intro next below all
    rw [length_append, length_singleton] at all
    omega
  unfold WalkScan.place
  by_cases unnamed : scan.current.name = ""
  · -- The first entry of the round.
    rw [if_pos (by rw [unnamed]; rfl)]
    refine scanned_entry scanned left ⟨rfl, rfl, rfl, rfl⟩ nonEmpty ?_ newest (Nat.succ_le_succ few) ?_
    · have old : List.Forall₂ (fun seen drive => (seen.2 = none ∧ seen.1.pending = none) ∧
          Placed last scan.current.name drive seen) scan.visited drives :=
        (forall₂_and_left _ _).2 ⟨scanned.fresh unnamed, scanned.placed.flip⟩
      exact rel_append (old.imp fun _ _ both => placed_without_entry both.2 both.1 _).flip
        (.cons placed .nil)
    · intro all seen member
      rw [length_append] at all
      rcases mem_append.1 member with old | new
      · obtain ⟨other, isOther, _⟩ := scanned.agreeing.2 (Nat.succ.inj all) seen old
        rw [(scanned.fresh unnamed seen old).1] at isOther
        cases isOther
      · rw [mem_singleton.1 new]
        exact ⟨entry, rfl, .inl rfl⟩
  · obtain ⟨other, isOther, isCurrent⟩ := scanned.least unnamed
    have older : ∃ other ∈ drives ++ [drive],
        scan.current ∈ remainder MetaCacheEntry.name last other.entries :=
      ⟨other, mem_append_left _ isOther, isCurrent⟩
    rw [if_neg (by rw [String.isEmpty_iff]; exact unnamed)]
    split
    · -- The entry matches the current one.
      rename_i matching
      have same := matches_same_name matching
      refine scanned_entry scanned left ⟨rfl, rfl, rfl, rfl⟩ unnamed ?_ older (Nat.succ_le_succ few) ?_
      · exact rel_append scanned.placed (.cons (same ▸ placed) .nil)
      · intro all seen member
        rw [length_append] at all
        rcases mem_append.1 member with old | new
        · exact scanned.agreeing.2 (Nat.succ.inj all) seen old
        · rw [mem_singleton.1 new]
          exact ⟨entry, rfl, .inr matching⟩
    · split
      · -- Only the name is that of the current entry.
        rename_i same
        refine scanned_entry scanned left ⟨rfl, rfl, rfl, rfl⟩ unnamed ?_ older
          (few.trans (Nat.le_succ _)) (notAll _ few)
        exact rel_append scanned.placed (.cons (same ▸ placed) .nil)
      · split
        · -- A greater name waits.
          rename_i greater
          refine scanned_entry scanned left ⟨rfl, rfl, rfl, rfl⟩ unnamed ?_ older
            (few.trans (Nat.le_succ _)) (notAll _ few)
          exact rel_append scanned.placed (.cons (placed_given_back placed greater) .nil)
        · -- A smaller name starts a group of its own.
          rename_i different notGreater
          have less : entry.name < scan.current.name :=
            lt_of_le_of_ne (not_lt.1 notGreater) different
          have filled : 0 < drives.length := length_pos_of_mem isOther
          refine scanned_entry scanned left ⟨rfl, rfl, rfl, rfl⟩ nonEmpty ?_ newest
            (Nat.le_add_left _ _) (notAll _ filled)
          refine rel_append ?_ (.cons placed .nil)
          rw [forall₂_map_right_iff]
          exact scanned.placed.imp fun _ _ old => placed_given_back old less

theorem visit_scanned (scanned : Scanned hash last drives scan) (follows : Follows last drive reader)
    (nonEmpty : ∀ entry ∈ drive.entries, entry.name ≠ "") :
    ∃ next, scan.visit hash reader.ready = .ok next ∧ Scanned hash last (drives ++ [drive]) next := by
  rcases ready_cases follows with
    ⟨entry, rest, isLeft, noErr, offered, isTaken⟩ | ⟨empty, nothing, noRest, ended⟩
  · have member : entry ∈ remainder MetaCacheEntry.name last drive.entries := by
      rw [isLeft]
      exact mem_cons_self
    have placed : Placed last entry.name drive (reader.ready.taken, some entry) := by
      rw [isTaken]
      refine ⟨isLeft.symm, ?_, fun _ => rfl, ?_, ?_, follows.ending, follows.producerErr, rfl, rfl, ?_⟩
      · intro nothing
        cases nothing
      · intro other same
        cases same
        rfl
      · intro other same
        cases same
      · intro failed
        rw [show reader.err = none from noErr] at failed
        cases failed
    refine ⟨scan.place hash reader.ready.taken entry, ?_, ?_⟩
    · unfold WalkScan.visit
      rw [offered]
    · exact scanned_place scanned isLeft placed (nonEmpty entry (mem_remainder.1 member).1)
  · have placed : ∀ err : Option DiskError, (err.isSome = true → drive.fails = true) →
        ∀ name, Placed last name drive ({ reader with err := err }, none) := by
      intro err failed name
      refine ⟨?_, fun _ => noRest, ?_, ?_, ?_, follows.ending, follows.producerErr, follows.head,
        follows.outcome, fun isErr => ⟨failed isErr, nothing⟩⟩
      · rw [empty]
        simp only [nothing, noRest]
        rfl
      · intro held
        cases held
      · intro other same
        cases same
      · intro other same
        rw [show reader.pending = none from nothing] at same
        cases same
    rcases ended with ⟨fails, offered, unchanged⟩ | ⟨noErr, offered, isTaken⟩
    · have notMissing : drive.lastOffer.isMissing = false ∧ drive.lastOffer.isVolumeMissing = false := by
        unfold DriveStream.fails at fails
        rcases drive.last_offer_cases with offer | offer | offer | ⟨err, offer⟩
        all_goals
          rw [offer] at fails ⊢
          cases fails
        exact ⟨rfl, rfl⟩
      have scannedNext := scanned_used_up scanned (placed reader.err fun _ => fails) nothing empty
      rw [fails, notMissing.1, notMissing.2] at scannedNext
      refine ⟨_, ?_, scannedNext⟩
      unfold WalkScan.visit
      rw [offered, unchanged]
      rfl
    · have whenNoErr : ∀ name, Placed last name drive (reader, none) := by
        have same := placed reader.err fun isErr => by rw [noErr] at isErr; cases isErr
        exact same
      unfold WalkScan.visit
      rw [offered, isTaken]
      have scannedNext := scanned_used_up scanned whenNoErr nothing empty
      unfold DriveStream.fails at scannedNext
      rcases drive.last_offer_cases with offer | offer | offer | ⟨err, offer⟩
      · rw [offer] at scannedNext ⊢
        exact ⟨_, rfl, scannedNext⟩
      · rw [offer] at scannedNext ⊢
        exact ⟨_, rfl, scannedNext⟩
      · rw [offer] at scannedNext ⊢
        exact ⟨_, rfl, scannedNext⟩
      · have failing := scanned_used_up scanned
          (placed (some err) fun _ => by unfold DriveStream.fails; rw [offer]; rfl) nothing empty
        unfold DriveStream.fails at failing
        rw [offer] at failing ⊢
        exact ⟨_, rfl, failing⟩

theorem scan_all {rest : List DriveStream} (follows : List.Forall₂ (Follows last) rest readers)
    (nonEmpty : ∀ drive ∈ rest, ∀ entry ∈ drive.entries, entry.name ≠ "") :
    ∀ {drives : List DriveStream} {scan : WalkScan}, Scanned hash last drives scan →
      ∃ final, (readers.map WalkReader.ready).foldlM (WalkScan.visit hash) scan = .ok final ∧
        Scanned hash last (drives ++ rest) final := by
  induction follows with
  | nil =>
    intro drives scan scanned
    refine ⟨scan, rfl, ?_⟩
    rw [append_nil]
    exact scanned
  | cons follow others ih =>
    intro drives scan scanned
    obtain ⟨next, visited, scannedNext⟩ := visit_scanned scanned follow (nonEmpty _ mem_cons_self)
    obtain ⟨final, ran, scannedAll⟩ :=
      ih (fun drive member => nonEmpty drive (mem_cons_of_mem _ member)) scannedNext
    refine ⟨final, ?_, ?_⟩
    · rw [map_cons, foldlM_cons, visited]
      exact ran
    · rw [append_cons]
      exact scannedAll

end Scan

def HandedExact (hash : Hash) (drives : List DriveStream) (item : String × HandedOver) : Prop :=
  match item.2 with
  | .partialFn entries =>
    entries = drives.map fun drive => entryFor MetaCacheEntry.name item.1 drive.entries
  | .agreedFn entry => entry.name = item.1 ∧ ∀ drive ∈ drives, ∃ own,
      entryFor MetaCacheEntry.name item.1 drive.entries = some own ∧ agrees hash entry own

/-- Failed readers and missing paths leave enough drives. Both are counted over the whole walk,
however they are spread over its rounds. -/
structure Tolerated (options : WalkOptions) (drives : List DriveStream) : Prop where
  nonempty : drives ≠ []
  enough : options.minDisks ≤ drives.length
  failures : drives.countP DriveStream.fails ≤ drives.length - options.minDisks
  missing : (drives.countP fun drive => drive.lastOffer.isMissing) = 0 ∨
    (drives.countP fun drive => drive.lastOffer.isMissing) < drives.length - options.minDisks

/-- The state between two rounds, or after the last one. -/
structure Walking (options : WalkOptions) (drives : List DriveStream) (state : WalkState)
    (last : WithBot String) : Prop where
  follows : state.ended = none → List.Forall₂ (Follows last) drives state.readers
  admitted : state.ended = none → drives ≠ [] ∧ options.minDisks ≤ drives.length
  handed : Handed MetaCacheEntry.name (drives.map DriveStream.entries) last (state.handed.map Prod.fst)
  exact : ∀ item ∈ state.handed, HandedExact options.hash drives item
  finished : state.ended = some .ok → Tolerated options drives ∧
    ∀ drive ∈ drives, remainder MetaCacheEntry.name last drive.entries = []
  failed : ∀ err, state.ended = some (.failed err) →
    (∀ tops errs, options.partialResult tops errs = none) → ¬ Tolerated options drives

def leftOver (last : WithBot String) (drives : List DriveStream) : Nat :=
  (drives.map fun drive => (remainder MetaCacheEntry.name last drive.entries).length).sum

section Round

variable {options : WalkOptions} {drives : List DriveStream} {state : WalkState}
  {last : WithBot String} {scan : WalkScan} {drive : DriveStream} {name : String}

theorem walking_start (options : WalkOptions) (drives : List DriveStream) :
    Walking options drives (.start options drives) ⊥ where
  follows := by
    intro _
    unfold WalkState.start
    rw [forall₂_map_right_iff, forall₂_same]
    exact fun drive _ => follows_start drive
  admitted := by
    intro running
    unfold WalkState.start at running
    split at running
    · cases running
    · rename_i admitted
      rw [Bool.or_eq_true, List.isEmpty_iff, decide_eq_true_eq, not_or, not_lt] at admitted
      exact admitted
  handed := handed_start
  exact := by
    intro item member
    cases member
  finished := by
    intro ended
    unfold WalkState.start at ended
    split at ended
    all_goals cases ended
  failed := by
    intro err ended _ tolerated
    unfold WalkState.start at ended
    split at ended
    · rename_i refused
      rw [Bool.or_eq_true, List.isEmpty_iff, decide_eq_true_eq] at refused
      rcases refused with empty | few
      · exact tolerated.nonempty empty
      · exact absurd few (not_lt.2 tolerated.enough)
    · cases ended

theorem placed_next
    (increasing : Increasing MetaCacheEntry.name drive.entries) (placed : Placed last name drive seen)
    (later : last < (name : WithBot String)) :
    seen.2 = entryFor MetaCacheEntry.name name drive.entries ∧
      Follows name drive (if seen.2.isSome then seen.1.skip else seen.1) ∧
      ∀ entry ∈ remainder MetaCacheEntry.name last drive.entries, name ≤ entry.name := by
  obtain ⟨reader, top⟩ := seen
  have ordered : Increasing MetaCacheEntry.name (remainder MetaCacheEntry.name last drive.entries) :=
    remainder_increasing increasing
  have heldAbove : ∀ entry, top.or reader.pending = some entry → name ≤ entry.name := by
    intro entry isHeld
    cases top with
    | some first =>
      cases isHeld
      exact (placed.named entry rfl).ge
    | none => exact (placed.later entry isHeld).le
  have above : ∀ entry ∈ remainder MetaCacheEntry.name last drive.entries, name ≤ entry.name := by
    intro entry member
    cases isHeld : top.or reader.pending with
    | none =>
      rw [← placed.left, isHeld, placed.drained isHeld] at member
      cases member
    | some first =>
      rw [← placed.left, isHeld] at member ordered
      rcases mem_cons.1 member with rfl | inRest
      · exact heldAbove entry isHeld
      · exact (heldAbove first isHeld).trans ((pairwise_cons.1 ordered).1 entry inRest).le
  cases top with
  | some first =>
    have isFirst : remainder MetaCacheEntry.name last drive.entries = first :: reader.rest :=
      placed.left.symm
    have unheld : reader.pending = none := placed.one rfl
    rcases next_cases increasing later above with
      ⟨entry, rest, isLeft, isNamed, found, remains⟩ | ⟨all, _, _⟩
    · rw [isFirst] at isLeft
      cases isLeft
      refine ⟨found.symm, ?_, above⟩
      have skipped : reader.skip = { reader with head := none } := by
        unfold WalkReader.skip
        rw [if_pos (by rw [show reader.head = some first from placed.head]; rfl)]
      rw [skipped]
      refine ⟨?_, placed.ending, placed.producerErr, unheld.symm, placed.outcome, fun failed => ?_⟩
      · rw [remains]
        simp only [unheld]
        rfl
      · have nothing := (placed.failed failed).2
        cases nothing
    · rw [isFirst] at all
      exact absurd (placed.named first rfl) (all first mem_cons_self).ne'
  | none =>
    rcases next_cases increasing later above with
      ⟨entry, rest, isLeft, isNamed, _, _⟩ | ⟨_, missing, remains⟩
    · cases isHeld : reader.pending with
      | none =>
        have nothing : remainder MetaCacheEntry.name last drive.entries = [] := by
          rw [← placed.left, show (none : Option MetaCacheEntry).or reader.pending = none from isHeld,
            placed.drained isHeld]
          rfl
        rw [nothing] at isLeft
        cases isLeft
      | some held =>
        have isHead : remainder MetaCacheEntry.name last drive.entries = held :: reader.rest := by
          rw [← placed.left, show (none : Option MetaCacheEntry).or reader.pending = some held from isHeld]
          rfl
        rw [isHead] at isLeft
        cases isLeft
        exact absurd isNamed (placed.later entry isHeld).ne'
    · refine ⟨missing.symm, ?_, above⟩
      exact ⟨placed.left.trans remains.symm, placed.ending, placed.producerErr, placed.head,
        placed.outcome, fun failed => ⟨(placed.failed failed).1, (placed.failed failed).2,
          placed.drained (placed.failed failed).2⟩⟩

theorem mem_streams (carried : ∃ drive ∈ drives,
    ∃ entry ∈ drive.entries, entry.name = name) :
    Carries MetaCacheEntry.name (drives.map DriveStream.entries) name := by
  obtain ⟨drive, isDrive, entry, isEntry, same⟩ := carried
  exact ⟨drive.entries, mem_map_of_mem isDrive, entry, isEntry, same⟩

theorem group_complete (increasing : ∀ drive ∈ drives, Increasing MetaCacheEntry.name drive.entries)
    (scanned : Scanned options.hash last drives scan) (named : scan.current.name ≠ "")
    {keys : List String}
    (handed : Handed MetaCacheEntry.name (drives.map DriveStream.entries) last keys) :
    (scan.visited.map Prod.snd =
        drives.map fun drive => entryFor MetaCacheEntry.name scan.current.name drive.entries) ∧
      List.Forall₂ (Follows scan.current.name) drives
        (scan.visited.map fun seen => if seen.2.isSome then seen.1.skip else seen.1) ∧
      Handed MetaCacheEntry.name (drives.map DriveStream.entries) scan.current.name
        (keys ++ [scan.current.name]) ∧
      leftOver scan.current.name drives < leftOver last drives := by
  obtain ⟨carrier, isCarrier, isCurrent⟩ := scanned.least named
  obtain ⟨isEntry, later⟩ := mem_remainder.1 isCurrent
  have next : List.Forall₂ (fun drive (seen : WalkReader × Option MetaCacheEntry) =>
      seen.2 = entryFor MetaCacheEntry.name scan.current.name drive.entries ∧
      Follows scan.current.name drive (if seen.2.isSome then seen.1.skip else seen.1) ∧
      ∀ entry ∈ remainder MetaCacheEntry.name last drive.entries, scan.current.name ≤ entry.name)
      drives scan.visited := by
    have both := (forall₂_and_left drives scan.visited).2 ⟨increasing, scanned.placed⟩
    exact both.imp fun _ _ both => placed_next both.1 both.2 later
  refine ⟨?_, ?_, ?_, ?_⟩
  · rw [← forall₂_eq_eq_eq, forall₂_map_left_iff, forall₂_map_right_iff]
    exact (next.imp fun _ _ holds => holds.1).flip
  · rw [forall₂_map_right_iff]
    exact next.imp fun _ _ holds => holds.2.1
  · refine handed_next handed later (mem_streams ⟨carrier, isCarrier, scan.current, isEntry, rfl⟩) ?_
    intro stream isStream
    obtain ⟨drive, isDrive, rfl⟩ := mem_map.1 isStream
    have above := (forall₂_and_left drives scan.visited).1
      (next.imp fun _ _ holds => ⟨holds.2.2, holds.1⟩)
    exact above.1 drive isDrive
  · apply sum_lt_sum
    · intro drive _
      rw [remainder_later later.le]
      exact length_filter_le _ _
    · refine ⟨carrier, isCarrier, ?_⟩
      rw [remainder_later later.le, length_filter_lt_length_iff_exists]
      exact ⟨scan.current, isCurrent, by simp⟩

theorem used_up_split (last : WithBot String) (drives : List DriveStream) :
    (drives.countP fun drive => drive.usedUp last && !drive.fails) +
      (drives.countP fun drive => drive.usedUp last && drive.fails) =
        drives.countP (DriveStream.usedUp last) := by
  induction drives with
  | nil => rfl
  | cons drive rest ih =>
    rw [countP_cons, countP_cons, countP_cons, ← ih]
    cases drive.usedUp last <;> cases drive.fails <;> simp <;> omega

section

variable (scanned : Scanned options.hash last drives scan)

include scanned

theorem counted_all :
    scan.atEof + scan.hasErr = drives.length ↔ ∀ drive ∈ drives, drive.usedUp last = true := by
  rw [scanned.atEof, scanned.hasErr, used_up_split, countP_eq_length]

theorem named_unless_used_up
    (filled : ¬ ∀ drive ∈ drives, drive.usedUp last = true) : scan.current.name ≠ "" := by
  intro unnamed
  apply filled
  have old : List.Forall₂ (fun seen drive => (seen.2 = none ∧ seen.1.pending = none) ∧
      Placed last scan.current.name drive seen) scan.visited drives :=
    (forall₂_and_left _ _).2 ⟨scanned.fresh unnamed, scanned.placed.flip⟩
  have empty : List.Forall₂ (fun drive (_ : WalkReader × Option MetaCacheEntry) =>
      drive.usedUp last = true ∧ True) drives scan.visited := by
    refine (old.imp ?_).flip
    rintro ⟨reader, top⟩ drive ⟨⟨noTop, noPending⟩, placed⟩
    dsimp only at noTop noPending
    have nothing : top.or reader.pending = none := by
      rw [noTop, noPending]
      rfl
    refine ⟨?_, trivial⟩
    unfold DriveStream.usedUp
    rw [← placed.left, nothing, placed.drained nothing]
    rfl
  exact ((forall₂_and_left _ _).1 empty).1

theorem counts_bounded :
    scan.vnf ≤ scan.fnf ∧ scan.fnf ≤ (drives.countP fun drive => drive.lastOffer.isMissing) ∧
      scan.hasErr ≤ drives.countP DriveStream.fails := by
  rw [scanned.vnf, scanned.fnf, scanned.hasErr]
  refine ⟨countP_mono_left ?_, countP_mono_left ?_, countP_mono_left ?_⟩
  · intro drive _ counted
    rw [Bool.and_eq_true] at counted ⊢
    refine ⟨counted.1, ?_⟩
    have volume := counted.2
    cases offer : drive.lastOffer <;> rw [offer] at volume <;> cases volume
    rfl
  all_goals
    intro drive _ counted
    exact Bool.and_elim_right counted

theorem counts_whole (all : ∀ drive ∈ drives, drive.usedUp last = true) :
    scan.fnf = (drives.countP fun drive => drive.lastOffer.isMissing) ∧
      scan.hasErr = drives.countP DriveStream.fails := by
  rw [scanned.fnf, scanned.hasErr]
  constructor
  all_goals
    apply countP_congr
    intro drive member
    rw [all drive member, Bool.true_and]

end

theorem walking_failed (walking : Walking options drives state last)
    {err : DiskError} (exceeded : ¬ Tolerated options drives) :
    Walking options drives { state with readers := readers, ended := some (.failed err) } last where
  follows := by
    intro running
    cases running
  admitted := by
    intro running
    cases running
  handed := walking.handed
  exact := walking.exact
  finished := by
    intro ended
    cases ended
  failed := fun _ _ _ => exceeded

theorem walking_handed (walking : Walking options drives state last) (running : state.ended = none)
    {what : HandedOver} (failure : Option DiskError)
    (follows : List.Forall₂ (Follows name) drives readers)
    (handed : Handed MetaCacheEntry.name (drives.map DriveStream.entries) name
      (state.handed.map Prod.fst ++ [name])) (exact : HandedExact options.hash drives (name, what))
    (quiet : (∀ tops errs, options.partialResult tops errs = none) → failure = none) :
    Walking options drives
      ⟨readers, state.handed ++ [(name, what)], failure.map .failed⟩ name where
  follows := fun _ => follows
  admitted := fun _ => walking.admitted running
  handed := by
    rw [map_append]
    exact handed
  exact := by
    intro item member
    rcases mem_append.1 member with old | new
    · exact walking.exact item old
    · rw [mem_singleton.1 new]
      exact exact
  finished := by
    intro ended
    obtain ⟨err, _, impossible⟩ := Option.map_eq_some_iff.1 ended
    cases impossible
  failed := by
    intro err ended silent
    rw [quiet silent] at ended
    cases ended

theorem finish_walking (increasing : ∀ drive ∈ drives, Increasing MetaCacheEntry.name drive.entries)
    (walking : Walking options drives state last) (running : state.ended = none)
    (scanned : Scanned options.hash last drives scan) :
    ∃ next, Walking options drives (state.finishRound options scan) next ∧
      ((state.finishRound options scan).ended = none → leftOver next drives < leftOver last drives) := by
  have size : (scan.visited.map Prod.fst).length = drives.length := by
    rw [length_map]
    exact scanned.placed.length_eq.symm
  obtain ⟨vnfBelow, fnfBelow, errBelow⟩ := counts_bounded scanned
  obtain ⟨some, enough⟩ := walking.admitted running
  unfold WalkState.finishRound
  dsimp only
  rw [size]
  split
  · refine ⟨last, walking_failed walking ?_, fun ended => by cases ended⟩
    intro tolerated
    have missing := tolerated.missing
    omega
  split
  · refine ⟨last, walking_failed walking ?_, fun ended => by cases ended⟩
    intro tolerated
    have missing := tolerated.missing
    omega
  split
  · refine ⟨last, walking_failed walking ?_, fun ended => by cases ended⟩
    intro tolerated
    have failures := tolerated.failures
    omega
  split
  · rename_i counted
    have all := (counted_all scanned).1 counted
    obtain ⟨isMissing, isFailures⟩ := counts_whole scanned all
    refine ⟨last, ⟨?_, ?_, walking.handed, walking.exact, ?_, ?_⟩, fun ended => by cases ended⟩
    · intro running
      cases running
    · intro running
      cases running
    · intro _
      refine ⟨⟨some, enough, by omega, by omega⟩, ?_⟩
      intro drive member
      exact List.isEmpty_iff.1 (all drive member)
    · intro err ended
      cases ended
  · rename_i counted
    have named := named_unless_used_up scanned fun all => counted ((counted_all scanned).2 all)
    obtain ⟨tops, follows, handed, smaller⟩ := group_complete increasing scanned named walking.handed
    split
    · rename_i agreed
      have whole := scanned.agreeing.2 agreed.1
      have skipped : (scan.visited.map Prod.fst).map WalkReader.skip =
          scan.visited.map fun seen => if seen.2.isSome then seen.1.skip else seen.1 := by
        rw [map_map]
        apply map_congr_left
        intro seen member
        obtain ⟨entry, isTop, _⟩ := whole seen member
        rw [isTop]
        rfl
      rw [skipped, running]
      refine ⟨scan.current.name, walking_handed walking running none follows handed ⟨rfl, ?_⟩ fun _ => rfl,
        fun _ => smaller⟩
      intro drive isDrive
      have isTop : entryFor MetaCacheEntry.name scan.current.name drive.entries ∈
          scan.visited.map Prod.snd := by
        rw [tops]
        exact mem_map_of_mem isDrive
      obtain ⟨seen, isSeen, isOwn⟩ := mem_map.1 isTop
      obtain ⟨own, isEntry, matching⟩ := whole seen isSeen
      exact ⟨own, isOwn.symm.trans isEntry, matching⟩
    · refine ⟨scan.current.name, walking_handed walking running _ follows handed tops fun quiet => quiet _ _,
        fun _ => smaller⟩

theorem round_walking (increasing : ∀ drive ∈ drives, Increasing MetaCacheEntry.name drive.entries)
    (nonEmpty : ∀ drive ∈ drives, ∀ entry ∈ drive.entries, entry.name ≠ "")
    (walking : Walking options drives state last) (running : state.ended = none)
    (fair : order.Perm (WalkState.toPeek state.readers)) :
    ∃ next, Walking options drives (state.round options order) next ∧
      ((state.round options order).ended = none → leftOver next drives < leftOver last drives) := by
  obtain ⟨scan, ran, scanned⟩ := scan_all (walking.follows running) nonEmpty
    (scanned_start options.hash last)
  unfold WalkState.round
  rw [WalkState.peek_all_eq fair, ran]
  exact finish_walking increasing walking running scanned

theorem rounds_walking {schedule : Nat → List Nat → List Nat}
    (fair : ∀ count indices, (schedule count indices).Perm indices)
    (increasing : ∀ drive ∈ drives, Increasing MetaCacheEntry.name drive.entries)
    (nonEmpty : ∀ drive ∈ drives, ∀ entry ∈ drive.entries, entry.name ≠ "") (count : Nat) :
    ∃ last, Walking options drives (WalkState.walkRounds options schedule drives count) last ∧
      ((WalkState.walkRounds options schedule drives count).ended = none →
        leftOver last drives + count ≤ leftOver ⊥ drives) := by
  induction count with
  | zero => exact ⟨⊥, walking_start options drives, fun _ => le_rfl⟩
  | succ count ih =>
    obtain ⟨last, walking, bounded⟩ := ih
    rw [WalkState.walkRounds]
    split
    · rename_i ended
      refine ⟨last, walking, fun running => ?_⟩
      rw [running] at ended
      cases ended
    · rename_i going
      have running := Option.not_isSome_iff_eq_none.1 going
      obtain ⟨next, walkingNext, smaller⟩ := round_walking increasing nonEmpty walking running
        (fair count _)
      refine ⟨next, walkingNext, fun stillRunning => ?_⟩
      have below := bounded running
      have less := smaller stillRunning
      omega

end Round

/-- In every walk the names are handed over in strict order, with none left out up to the last one,
and with what each drive holds for the name. A walk that ends well has handed over every name; it
ends well exactly where the failures and the missing paths are tolerated. -/
theorem walk_groups_names_once (options : WalkOptions) (schedule : Nat → List Nat → List Nat)
    (drives : List DriveStream) (fair : ∀ count indices, (schedule count indices).Perm indices)
    (increasing : ∀ drive ∈ drives, Increasing MetaCacheEntry.name drive.entries)
    (nonEmpty : ∀ drive ∈ drives, ∀ entry ∈ drive.entries, entry.name ≠ "") (count : Nat) :
    ((WalkState.walkRounds options schedule drives count).handed.map Prod.fst).Pairwise (· < ·) ∧
      (∀ item ∈ (WalkState.walkRounds options schedule drives count).handed,
        HandedExact options.hash drives item ∧
        Carries MetaCacheEntry.name (drives.map DriveStream.entries) item.1 ∧
        ∀ name ≤ item.1, Carries MetaCacheEntry.name (drives.map DriveStream.entries) name →
          name ∈ (WalkState.walkRounds options schedule drives count).handed.map Prod.fst) ∧
      ((WalkState.walkRounds options schedule drives count).ended = some .ok →
        ∀ name, name ∈ (WalkState.walkRounds options schedule drives count).handed.map Prod.fst ↔
          Carries MetaCacheEntry.name (drives.map DriveStream.entries) name) ∧
      ((∀ tops errs, options.partialResult tops errs = none) →
        (drives.map fun drive => drive.entries.length).sum < count →
        ((WalkState.walkRounds options schedule drives count).ended = some .ok ↔
          Tolerated options drives) ∧
        ((∃ err, (WalkState.walkRounds options schedule drives count).ended = some (.failed err)) ↔
          ¬ Tolerated options drives)) := by
  obtain ⟨last, walking, bounded⟩ := @rounds_walking options drives schedule fair increasing nonEmpty count
  refine ⟨walking.handed.increasing, ?_, ?_, ?_⟩
  · intro item member
    have isKey := (walking.handed.exact item.1).1 (mem_map_of_mem member)
    refine ⟨walking.exact item member, isKey.2, ?_⟩
    intro name below carried
    exact (walking.handed.exact name).2 ⟨(WithBot.coe_le_coe.2 below).trans isKey.1, carried⟩
  · intro ended
    apply handed_all walking.handed
    intro stream isStream
    obtain ⟨drive, isDrive, rfl⟩ := mem_map.1 isStream
    exact (walking.finished ended).2 drive isDrive
  · intro quiet long
    have total : leftOver ⊥ drives = (drives.map fun drive => drive.entries.length).sum := by
      unfold leftOver
      simp only [remainder_start]
    cases ended : (WalkState.walkRounds options schedule drives count).ended with
    | none =>
      have below := bounded ended
      omega
    | some how =>
      cases how with
      | ok =>
        have tolerated := (walking.finished ended).1
        exact ⟨iff_of_true rfl tolerated,
          iff_of_false (by rintro ⟨err, impossible⟩; cases impossible) (not_not.2 tolerated)⟩
      | failed err =>
        have exceeded := walking.failed err ended quiet
        exact ⟨iff_of_false (fun impossible => by cases impossible) exceeded,
          iff_of_true ⟨err, rfl⟩ exceeded⟩

def walkEntry (name : String) : MetaCacheEntry := ⟨name, [], none, false⟩

def walkOptions (minDisks : Nat) : WalkOptions := ⟨fun _ => 0, minDisks, false, fun _ _ => none⟩

/-- The drives hold other names; the second one stalls behind its entry. -/
def stalledDrives : List DriveStream :=
  [⟨[walkEntry "b"], .closed, none⟩, ⟨[walkEntry "a"], .timedOut, none⟩]

theorem stalled_drive_tolerated :
    (WalkState.walkRounds (walkOptions 1) (fun _ indices => indices) stalledDrives 3).ended = some .ok ∧
      ∀ name, name ∈ (WalkState.walkRounds (walkOptions 1) (fun _ indices => indices) stalledDrives
        3).handed.map Prod.fst ↔ Carries MetaCacheEntry.name (stalledDrives.map DriveStream.entries) name := by
  have walk := walk_groups_names_once (walkOptions 1) (fun _ indices => indices) stalledDrives
    (fun _ _ => List.Perm.refl _) (by decide) (by decide) 3
  have ended : (WalkState.walkRounds (walkOptions 1) (fun _ indices => indices) stalledDrives 3).ended =
      some .ok := by decide
  exact ⟨ended, walk.2.2.1 ended⟩

/-- An entry that waits is lost where the walk fails, and a single path that is not found can end
the walk. -/
theorem held_name_is_lost :
    ((WalkState.walkRounds (walkOptions 2) (fun _ indices => indices) stalledDrives 1).readers.map
        fun reader => reader.pending.map MetaCacheEntry.name) = [some "b", none] ∧
      (WalkState.walkRounds (walkOptions 2) (fun _ indices => indices) stalledDrives 2).handed.map
        Prod.fst = ["a"] ∧
      (WalkState.walkRounds (walkOptions 2) (fun _ indices => indices) stalledDrives 2).ended =
        some (.failed .timeout) ∧
      (WalkState.walkRounds (walkOptions 1) (fun _ indices => indices)
        [⟨[], .error .fileNotFound, none⟩, ⟨[walkEntry "a"], .closed, none⟩] 1).ended =
          some (.failed .fileNotFound) := by
  decide

end Rustfs.Ecstore
