import Rustfs.Library.Tally
import Mathlib.Data.List.Basic

/-!
# Disk errors

The errors a drive returns for one request. Two of them are the same error when their
wire codes agree; an input/output error is told apart by its kind and its text, the text
of an unreachable peer is not compared. The source texts inside of an `io::Error` are
left out.
-/

namespace Rustfs.Ecstore

open Option Library Library.Tally

/-- `std::io::ErrorKind`. -/
inductive ErrorKind where
  | notFound
  | permissionDenied
  | connectionRefused
  | connectionReset
  | hostUnreachable
  | networkUnreachable
  | connectionAborted
  | notConnected
  | addrInUse
  | addrNotAvailable
  | networkDown
  | brokenPipe
  | alreadyExists
  | wouldBlock
  | notADirectory
  | isADirectory
  | directoryNotEmpty
  | readOnlyFilesystem
  | staleNetworkFileHandle
  | invalidInput
  | invalidData
  | timedOut
  | writeZero
  | storageFull
  | notSeekable
  | quotaExceeded
  | fileTooLarge
  | resourceBusy
  | executableFileBusy
  | deadlock
  | tooManyLinks
  | argumentListTooLong
  | interrupted
  | unsupported
  | unexpectedEof
  | outOfMemory
  | other
  deriving DecidableEq, Repr

inductive DiskError where
  | maxVersionsExceeded
  | unexpected
  | corruptedFormat
  | corruptedBackend
  | unformattedDisk
  | inconsistentDisk
  | unsupportedDisk
  | diskFull
  | diskNotDir
  | diskNotFound
  | diskOngoingReq
  | driveIsRoot
  | faultyRemoteDisk
  | faultyDisk
  | diskAccessDenied
  | fileNotFound
  | fileVersionNotFound
  | tooManyOpenFiles
  | fileNameTooLong
  | volumeExists
  | isNotRegular
  | pathNotFound
  | volumeNotFound
  | volumeNotEmpty
  | volumeAccessDenied
  | fileAccessDenied
  | fileCorrupt
  | shortWrite
  | bitrotHashAlgoInvalid
  | crossDeviceLink
  | lessData
  | moreData
  | outdatedXlMeta
  | partMissingOrCorrupt
  | noHealRequired
  | methodNotAllowed
  | erasureWriteQuorum
  | erasureReadQuorum
  | io (kind : ErrorKind) (message : String)
  | sourceStalled
  | timeout
  | invalidPath
  | remoteClientUnavailable (detail : String)
  deriving DecidableEq, Repr

namespace DiskError

/-- `DiskError::other`. -/
def other (message : String) : DiskError := .io .other message

def toU32 : DiskError → UInt32
  | .maxVersionsExceeded => 0x01
  | .unexpected => 0x02
  | .corruptedFormat => 0x03
  | .corruptedBackend => 0x04
  | .unformattedDisk => 0x05
  | .inconsistentDisk => 0x06
  | .unsupportedDisk => 0x07
  | .diskFull => 0x08
  | .diskNotDir => 0x09
  | .diskNotFound => 0x0A
  | .diskOngoingReq => 0x0B
  | .driveIsRoot => 0x0C
  | .faultyRemoteDisk => 0x0D
  | .faultyDisk => 0x0E
  | .diskAccessDenied => 0x0F
  | .fileNotFound => 0x10
  | .fileVersionNotFound => 0x11
  | .tooManyOpenFiles => 0x12
  | .fileNameTooLong => 0x13
  | .volumeExists => 0x14
  | .isNotRegular => 0x15
  | .pathNotFound => 0x16
  | .volumeNotFound => 0x17
  | .volumeNotEmpty => 0x18
  | .volumeAccessDenied => 0x19
  | .fileAccessDenied => 0x1A
  | .fileCorrupt => 0x1B
  | .bitrotHashAlgoInvalid => 0x1C
  | .crossDeviceLink => 0x1D
  | .lessData => 0x1E
  | .moreData => 0x1F
  | .outdatedXlMeta => 0x20
  | .partMissingOrCorrupt => 0x21
  | .noHealRequired => 0x22
  | .methodNotAllowed => 0x23
  | .io _ _ => 0x24
  | .erasureWriteQuorum => 0x25
  | .erasureReadQuorum => 0x26
  | .shortWrite => 0x27
  | .sourceStalled => 0x28
  | .timeout => 0x29
  | .invalidPath => 0x2A
  | .remoteClientUnavailable _ => 0x2B

/-- `PartialEq` of the source. -/
def same : DiskError → DiskError → Bool
  | .io kind message, .io kind' message' => kind == kind' && message == message'
  | left, right => left.toU32 == right.toU32

/-- What `same` compares: the error without the text of an unreachable peer. -/
def identity : DiskError → DiskError
  | .remoteClientUnavailable _ => .remoteClientUnavailable ""
  | error => error

theorem same_iff (left right : DiskError) :
    left.same right = true ↔ left.identity = right.identity := by
  cases left with
  | io kind message =>
    cases right with
    | io kind' message' => simp [same, identity]
    | _ => simp [same, identity, toU32]
  | remoteClientUnavailable detail | _ => cases right <;> simp [same, identity, toU32]

end DiskError

def objectOpIgnoredErrs : List DiskError :=
  [.diskNotFound, .faultyDisk, .faultyRemoteDisk, .diskAccessDenied, .diskOngoingReq,
    .unformattedDisk]

def isIgnoredErr (ignoredErrs : List DiskError) (err : DiskError) : Bool :=
  ignoredErrs.any fun ignored => ignored.same err

def countedErrs (ignoredErrs : List DiskError) (errors : List (Option DiskError)) :
    List DiskError :=
  (errors.filterMap id).filter fun err => !isIgnoredErr ignoredErrs err

def nilCount (errors : List (Option DiskError)) : Nat := errors.countP Option.isNone

/-- The answers without an error against the most frequent error. -/
def preferNil (nilCount : Nat) (best : DiskError × Nat) : Nat × Option DiskError :=
  if best.2 = 0 ∧ nilCount = 0 then (0, none)
  else if best.2 < nilCount ∨ (nilCount = best.2 ∧ 0 < nilCount) then (nilCount, none)
  else (best.2, some best.1)

def reduceErrs (walk : Walk) (errors : List (Option DiskError)) (ignoredErrs : List DiskError) :
    Nat × Option DiskError :=
  let errCounts := tally DiskError.same (countedErrs ignoredErrs errors)
  preferNil (nilCount errors)
    ((lastMax (walk.enumerate errCounts)).getD (DiskError.other "nil", 0))

variable {best : DiskError × Nat} {left right : List (Option DiskError)}

theorem prefer_nil_of_le {nilCount : Nat} (below : best.2 ≤ nilCount) :
    preferNil nilCount best = (nilCount, none) := by
  unfold preferNil
  by_cases silent : nilCount = 0
  · rw [if_pos (by omega), silent]
  · rw [if_neg (by omega), if_pos (by omega)]

theorem prefer_nil_of_lt {nilCount : Nat} (above : nilCount < best.2) :
    preferNil nilCount best = (best.2, some best.1) := by
  unfold preferNil
  rw [if_neg (by omega), if_neg (by omega)]

def reduceQuorumErrs (walk : Walk) (errors : List (Option DiskError))
    (ignoredErrs : List DiskError) (quorum : Nat) (quorumErr : DiskError) : Option DiskError :=
  let reduced := reduceErrs walk errors ignoredErrs
  if quorum ≤ reduced.1 then reduced.2 else some quorumErr

def reduceReadQuorumErrs (walk : Walk) (errors : List (Option DiskError))
    (ignoredErrs : List DiskError) (quorum : Nat) : Option DiskError :=
  reduceQuorumErrs walk errors ignoredErrs quorum .erasureReadQuorum

section Reduced

variable (walk : Walk) (errors : List (Option DiskError)) (ignoredErrs : List DiskError)

def errVotes (error : DiskError) : Nat :=
  votes DiskError.identity (countedErrs ignoredErrs errors) error

/-- No counted error is as frequent as the answers without one. -/
def Calm : Prop := ∀ error, errVotes errors ignoredErrs error ≤ nilCount errors

theorem err_votes_le (error : DiskError) :
    errVotes errors ignoredErrs error + nilCount errors ≤ errors.length := by
  have reported : (errors.filterMap id).length = errors.countP Option.isSome :=
    List.length_filterMap_eq_countP
  have split := List.length_eq_countP_add_countP Option.isNone (l := errors)
  have others : (errors.countP fun err => ¬ err.isNone = true) = errors.countP Option.isSome := by
    apply List.countP_congr
    intro err _
    cases err <;> simp
  have counted : errVotes errors ignoredErrs error ≤ (errors.filterMap id).length :=
    le_trans List.countP_le_length (List.length_filter_le _ _)
  unfold nilCount
  omega

theorem calm_of_majority (majority : errors.length < 2 * nilCount errors) :
    Calm errors ignoredErrs := by
  intro error
  have total := err_votes_le errors ignoredErrs error
  omega

theorem reduce_errs_calm (calm : Calm errors ignoredErrs) :
    reduceErrs walk errors ignoredErrs = (nilCount errors, none) := by
  apply prefer_nil_of_le
  cases picked : lastMax (walk.enumerate (tally DiskError.same (countedErrs ignoredErrs errors))) with
  | none => exact Nat.zero_le _
  | some best =>
    have counted := (last_max_tally DiskError.same_iff picked).2.2
    exact counted ▸ calm best.1.identity

theorem reduce_errs_loud (loud : ¬ Calm errors ignoredErrs) :
    ∃ err, reduceErrs walk errors ignoredErrs =
        (errVotes errors ignoredErrs err.identity, some err) ∧
      TopVoted DiskError.identity (countedErrs ignoredErrs errors) err.identity := by
  simp only [Calm, not_forall, not_le] at loud
  obtain ⟨error, louder⟩ := loud
  cases picked : lastMax (walk.enumerate (tally DiskError.same (countedErrs ignoredErrs errors))) with
  | none =>
    rw [last_max_tally_none DiskError.same_iff] at picked
    rw [errVotes, picked] at louder
    simp [votes] at louder
  | some best =>
    obtain ⟨_, top, counted⟩ := last_max_tally DiskError.same_iff picked
    have above : nilCount errors < best.2 := by
      rw [counted]
      exact lt_of_lt_of_le louder (top.2 error)
    use best.1
    refine ⟨?_, top⟩
    rw [errVotes, ← counted]
    simp only [reduceErrs, picked, getD_some]
    exact prefer_nil_of_lt above

/-- No error is accepted exactly when a quorum of the drives answered without one
and no counted error is more frequent than that. -/
theorem reduce_quorum_errs_none_iff (quorum : Nat) (quorumErr : DiskError) :
    reduceQuorumErrs walk errors ignoredErrs quorum quorumErr = none ↔
      Calm errors ignoredErrs ∧ quorum ≤ nilCount errors := by
  unfold reduceQuorumErrs
  by_cases calm : Calm errors ignoredErrs
  · rw [reduce_errs_calm walk errors ignoredErrs calm]
    dsimp only
    split <;> simp [*]
  · obtain ⟨err, reduced, _⟩ := reduce_errs_loud walk errors ignoredErrs calm
    rw [reduced]
    dsimp only
    split <;> simp [calm]

end Reduced

/-- Two different errors are reported equally often, by a quorum of the drives and
by more drives than answered without an error. -/
def ErrsTied (errors : List (Option DiskError)) (ignoredErrs : List DiskError) (quorum : Nat) :
    Prop :=
  ∃ left right, left ≠ right ∧
    TopVoted DiskError.identity (countedErrs ignoredErrs errors) left ∧
    TopVoted DiskError.identity (countedErrs ignoredErrs errors) right ∧
    nilCount errors < errVotes errors ignoredErrs left ∧ quorum ≤ errVotes errors ignoredErrs left

theorem counted_errs_perm (rearranged : left.Perm right) (ignoredErrs : List DiskError) :
    (countedErrs ignoredErrs left).Perm (countedErrs ignoredErrs right) :=
  (rearranged.filterMap id).filter _

theorem err_votes_perm (rearranged : left.Perm right)
    (ignoredErrs : List DiskError) (error : DiskError) :
    errVotes left ignoredErrs error = errVotes right ignoredErrs error :=
  votes_perm _ (counted_errs_perm rearranged ignoredErrs) error

theorem nil_count_perm (rearranged : left.Perm right) : nilCount left = nilCount right :=
  rearranged.countP_eq _

theorem calm_perm (rearranged : left.Perm right)
    (ignoredErrs : List DiskError) : Calm left ignoredErrs ↔ Calm right ignoredErrs := by
  unfold Calm
  simp only [err_votes_perm rearranged, nil_count_perm rearranged]

/-- The accepted error up to what tells two errors apart. -/
def reducedIdentity (walk : Walk) (errors : List (Option DiskError))
    (ignoredErrs : List DiskError) (quorum : Nat) (quorumErr : DiskError) : Option DiskError :=
  (reduceQuorumErrs walk errors ignoredErrs quorum quorumErr).map DiskError.identity

theorem reduced_untied (rearranged : left.Perm right)
    (ignoredErrs : List DiskError) (quorum : Nat) (quorumErr : DiskError)
    (untied : ¬ ErrsTied left ignoredErrs quorum) (walk walk' : Walk) :
    reducedIdentity walk left ignoredErrs quorum quorumErr =
      reducedIdentity walk' right ignoredErrs quorum quorumErr := by
  unfold reducedIdentity reduceQuorumErrs
  by_cases calm : Calm left ignoredErrs
  · rw [reduce_errs_calm walk _ _ calm,
      reduce_errs_calm walk' _ _ ((calm_perm rearranged ignoredErrs).1 calm),
      nil_count_perm rearranged]
  · have calm' : ¬ Calm right ignoredErrs := fun other => calm ((calm_perm rearranged _).2 other)
    obtain ⟨err, reduced, top⟩ := reduce_errs_loud walk left ignoredErrs calm
    obtain ⟨err', reduced', top'⟩ := reduce_errs_loud walk' right ignoredErrs calm'
    rw [← err_votes_perm rearranged] at reduced'
    rw [← top_voted_perm (counted_errs_perm rearranged ignoredErrs)] at top'
    have level : errVotes left ignoredErrs err.identity = errVotes left ignoredErrs err'.identity :=
      le_antisymm (top'.2 _) (top.2 _)
    rw [reduced, reduced', ← level]
    by_cases accepted : quorum ≤ errVotes left ignoredErrs err.identity
    · simp only [if_pos accepted, map_some, Option.some.injEq]
      by_contra apart
      simp only [Calm, not_forall, not_le] at calm
      obtain ⟨error, louder⟩ := calm
      exact untied ⟨_, _, apart, top, top', lt_of_lt_of_le louder (top.2 error), accepted⟩
    · simp only [if_neg accepted]

variable {errors : List (Option DiskError)} {ignoredErrs : List DiskError} {quorum : Nat}

theorem reduced_reaches (quorumErr : DiskError) {error : DiskError}
    (top : TopVoted DiskError.identity (countedErrs ignoredErrs errors) error)
    (louder : nilCount errors < errVotes errors ignoredErrs error)
    (accepted : quorum ≤ errVotes errors ignoredErrs error) :
    ∃ walk : Walk, reducedIdentity walk errors ignoredErrs quorum quorumErr = some error := by
  obtain ⟨walk, entry, picked, rfl⟩ := last_max_tally_reaches DiskError.same_iff top
  use walk
  have counted : entry.2 = errVotes errors ignoredErrs entry.1.identity :=
    (last_max_tally DiskError.same_iff picked).2.2
  have reduced : reduceErrs walk errors ignoredErrs = (entry.2, some entry.1) := by
    simp only [reduceErrs, picked, getD_some]
    exact prefer_nil_of_lt (by omega)
  unfold reducedIdentity reduceQuorumErrs
  rw [reduced]
  rw [if_pos (by omega)]
  rfl

theorem reduced_tied (quorumErr : DiskError) (tied : ErrsTied errors ignoredErrs quorum) :
    ∃ walk walk' : Walk, reducedIdentity walk errors ignoredErrs quorum quorumErr ≠
      reducedIdentity walk' errors ignoredErrs quorum quorumErr := by
  obtain ⟨left, right, apart, topLeft, topRight, louder, accepted⟩ := tied
  have level : errVotes errors ignoredErrs left = errVotes errors ignoredErrs right :=
    le_antisymm (topRight.2 _) (topLeft.2 _)
  obtain ⟨walk, returned⟩ := reduced_reaches quorumErr topLeft louder accepted
  obtain ⟨walk', returned'⟩ :=
    reduced_reaches quorumErr topRight (level ▸ louder) (level ▸ accepted)
  use walk, walk'
  rw [returned, returned']
  exact fun same => apart (Option.some.inj same)

end Rustfs.Ecstore
