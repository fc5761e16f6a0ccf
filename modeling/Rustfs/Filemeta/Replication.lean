import Rustfs.Filemeta.VersionHeader
import Rustfs.Utils.MetadataCompat

/-!
# Replication state of a version

The statuses that decide what `delete_version` does with a request, and the composite
status over all targets. Resync decisions are left out.
-/

namespace Rustfs.Filemeta

open Library Utils

inductive ReplicationStatusType
  | pending
  | completed
  | completedLegacy
  | failed
  | replica
  | empty
  deriving DecidableEq

namespace ReplicationStatusType

def asStr : ReplicationStatusType → String
  | pending => "PENDING"
  | completed => "COMPLETED"
  | completedLegacy => "COMPLETE"
  | failed => "FAILED"
  | replica => "REPLICA"
  | empty => ""

def isEmpty (status : ReplicationStatusType) : Bool := status = empty

def fromStr (text : String) : ReplicationStatusType :=
  if text = "PENDING" then pending
  else if text = "COMPLETED" then completed
  else if text = "COMPLETE" then completedLegacy
  else if text = "FAILED" then failed
  else if text = "REPLICA" then replica
  else empty

end ReplicationStatusType

inductive VersionPurgeStatusType
  | pending
  | complete
  | failed
  | empty
  deriving DecidableEq

namespace VersionPurgeStatusType

def isEmpty (status : VersionPurgeStatusType) : Bool := status = empty

def fromStr (text : String) : VersionPurgeStatusType :=
  if text = "PENDING" then pending
  else if text = "COMPLETE" then complete
  else if text = "FAILED" then failed
  else empty

end VersionPurgeStatusType

structure ReplicationState where
  replicaTimestamp : Option OffsetDateTime
  replicaStatus : ReplicationStatusType
  deleteMarker : Bool
  replicationTimestamp : Option OffsetDateTime
  replicationStatusInternal : Option String
  versionPurgeStatusInternal : Option String
  replicateDecisionStr : String
  targets : KeyMap String ReplicationStatusType
  purgeTargets : KeyMap String VersionPurgeStatusType
  resetStatusesMap : Metadata
  targetDeleteMarkerVersionIds : Metadata
  targetDeleteMarkerVersionIdsCorrupt : Bool
  deriving DecidableEq

def ReplicationState.default : ReplicationState where
  replicaTimestamp := none
  replicaStatus := .empty
  deleteMarker := false
  replicationTimestamp := none
  replicationStatusInternal := none
  versionPurgeStatusInternal := none
  replicateDecisionStr := ""
  targets := .empty
  purgeTargets := .empty
  resetStatusesMap := .empty
  targetDeleteMarkerVersionIds := .empty
  targetDeleteMarkerVersionIdsCorrupt := false

def compositeStatus {S : Type} [DecidableEq S] (empty failed completed pending : S)
    (targets : KeyMap String S) : S :=
  if targets.isEmpty then empty
  else if targets.entries.any fun entry => entry.2 = failed then failed
  else if targets.entries.all fun entry => entry.2 = completed then completed
  else pending

def getCompositeReplicationStatus (targets : KeyMap String ReplicationStatusType) :
    ReplicationStatusType :=
  compositeStatus .empty .failed .completed .pending targets

def getCompositeVersionPurgeStatus (targets : KeyMap String VersionPurgeStatusType) :
    VersionPurgeStatusType :=
  compositeStatus .empty .failed .complete .pending targets

namespace ReplicationState

def compositeReplicationStatus (state : ReplicationState) : ReplicationStatusType :=
  match state.replicationStatusInternal with
  | none => if !state.replicaStatus.isEmpty then state.replicaStatus else .empty
  | some text =>
    match ReplicationStatusType.fromStr text with
    | .completedLegacy | .empty =>
      let status := getCompositeReplicationStatus state.targets
      match state.replicaTimestamp, state.replicationTimestamp with
      | some replica, some replication =>
        if status = .completed && replication < replica then state.replicaStatus else status
      | _, _ => status
    | status => status

def compositeVersionPurgeStatus (state : ReplicationState) : VersionPurgeStatusType :=
  match VersionPurgeStatusType.fromStr (state.versionPurgeStatusInternal.getD "") with
  | .empty => getCompositeVersionPurgeStatus state.purgeTargets
  | status => status

end ReplicationState

/-- The pairs `arn=status;` the status expression captures are an argument; a
later pair of one target replaces an earlier one. -/
def statusesMap {S : Type} (fromStr : String → S) (pairs : List (String × String)) :
    KeyMap String S :=
  .ofEntries ((pairs.filter fun pair => !pair.1.isEmpty).map fun pair =>
    (pair.1, fromStr pair.2))

def replicationStatusesMap (pairs : List (String × String)) : KeyMap String ReplicationStatusType :=
  statusesMap ReplicationStatusType.fromStr pairs

def versionPurgeStatusesMap (pairs : List (String × String)) :
    KeyMap String VersionPurgeStatusType :=
  statusesMap VersionPurgeStatusType.fromStr pairs

def targetResetHeader (arn : String) : String := rustfsKey ("replication-reset" ++ "-" ++ arn)

end Rustfs.Filemeta
