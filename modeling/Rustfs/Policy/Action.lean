import Rustfs.Policy.Wildcard

/-!
# Actions

`policy/action.rs`: the known actions with their texts, and how the lists of a statement
cover a requested action. Parsing of actions is left out.
-/

namespace Rustfs.Policy

open Wildcard

inductive S3Action
  | allActions
  | abortMultipartUploadAction
  | createBucketAction
  | deleteBucketAction
  | forceDeleteBucketAction
  | forceDeleteObjectAction
  | deleteBucketPolicyAction
  | deleteBucketPublicAccessBlockAction
  | deleteBucketCorsAction
  | deleteObjectAction
  | getBucketLocationAction
  | getBucketNotificationAction
  | getBucketPolicyAction
  | getBucketPublicAccessBlockAction
  | getBucketCorsAction
  | getBucketAclAction
  | putBucketAclAction
  | getObjectAction
  | getObjectAclAction
  | getObjectAttributesAction
  | headBucketAction
  | listAllMyBucketsAction
  | listBucketAction
  | getBucketPolicyStatusAction
  | listBucketVersionsAction
  | listBucketMultipartUploadsAction
  | listenNotificationAction
  | listenBucketNotificationAction
  | listMultipartUploadPartsAction
  | putBucketLifecycleAction
  | getBucketLifecycleAction
  | putBucketLoggingAction
  | getBucketLoggingAction
  | putBucketNotificationAction
  | putBucketPolicyAction
  | putBucketPublicAccessBlockAction
  | putBucketCorsAction
  | putObjectAction
  | putObjectAclAction
  | deleteObjectVersionAction
  | deleteObjectVersionTaggingAction
  | getObjectVersionAction
  | getObjectVersionAttributesAction
  | getObjectVersionTaggingAction
  | putObjectVersionTaggingAction
  | bypassGovernanceRetentionAction
  | putObjectRetentionAction
  | getObjectRetentionAction
  | getObjectLegalHoldAction
  | putObjectLegalHoldAction
  | getBucketObjectLockConfigurationAction
  | putBucketObjectLockConfigurationAction
  | getBucketTaggingAction
  | putBucketTaggingAction
  | getObjectTaggingAction
  | putObjectTaggingAction
  | deleteObjectTaggingAction
  | putBucketEncryptionAction
  | getBucketEncryptionAction
  | putBucketVersioningAction
  | getBucketVersioningAction
  | getReplicationConfigurationAction
  | putReplicationConfigurationAction
  | replicateObjectAction
  | replicateDeleteAction
  | replicateTagsAction
  | getObjectVersionForReplicationAction
  | restoreObjectAction
  | resetBucketReplicationStateAction
  | putObjectFanOutAction
  | getBucketQuotaAction
  deriving DecidableEq

def S3Action.text : S3Action → String
  | .allActions => "s3:*"
  | .abortMultipartUploadAction => "s3:AbortMultipartUpload"
  | .createBucketAction => "s3:CreateBucket"
  | .deleteBucketAction => "s3:DeleteBucket"
  | .forceDeleteBucketAction => "s3:ForceDeleteBucket"
  | .forceDeleteObjectAction => "s3:ForceDeleteObject"
  | .deleteBucketPolicyAction => "s3:DeleteBucketPolicy"
  | .deleteBucketPublicAccessBlockAction => "s3:DeleteBucketPublicAccessBlock"
  | .deleteBucketCorsAction => "s3:DeleteBucketCors"
  | .deleteObjectAction => "s3:DeleteObject"
  | .getBucketLocationAction => "s3:GetBucketLocation"
  | .getBucketNotificationAction => "s3:GetBucketNotification"
  | .getBucketPolicyAction => "s3:GetBucketPolicy"
  | .getBucketPublicAccessBlockAction => "s3:GetBucketPublicAccessBlock"
  | .getBucketCorsAction => "s3:GetBucketCors"
  | .getBucketAclAction => "s3:GetBucketAcl"
  | .putBucketAclAction => "s3:PutBucketAcl"
  | .getObjectAction => "s3:GetObject"
  | .getObjectAclAction => "s3:GetObjectAcl"
  | .getObjectAttributesAction => "s3:GetObjectAttributes"
  | .headBucketAction => "s3:HeadBucket"
  | .listAllMyBucketsAction => "s3:ListAllMyBuckets"
  | .listBucketAction => "s3:ListBucket"
  | .getBucketPolicyStatusAction => "s3:GetBucketPolicyStatus"
  | .listBucketVersionsAction => "s3:ListBucketVersions"
  | .listBucketMultipartUploadsAction => "s3:ListBucketMultipartUploads"
  | .listenNotificationAction => "s3:ListenNotification"
  | .listenBucketNotificationAction => "s3:ListenBucketNotification"
  | .listMultipartUploadPartsAction => "s3:ListMultipartUploadParts"
  | .putBucketLifecycleAction => "s3:PutBucketLifecycle"
  | .getBucketLifecycleAction => "s3:GetBucketLifecycle"
  | .putBucketLoggingAction => "s3:PutBucketLogging"
  | .getBucketLoggingAction => "s3:GetBucketLogging"
  | .putBucketNotificationAction => "s3:PutBucketNotification"
  | .putBucketPolicyAction => "s3:PutBucketPolicy"
  | .putBucketPublicAccessBlockAction => "s3:PutBucketPublicAccessBlock"
  | .putBucketCorsAction => "s3:PutBucketCors"
  | .putObjectAction => "s3:PutObject"
  | .putObjectAclAction => "s3:PutObjectAcl"
  | .deleteObjectVersionAction => "s3:DeleteObjectVersion"
  | .deleteObjectVersionTaggingAction => "s3:DeleteObjectVersionTagging"
  | .getObjectVersionAction => "s3:GetObjectVersion"
  | .getObjectVersionAttributesAction => "s3:GetObjectVersionAttributes"
  | .getObjectVersionTaggingAction => "s3:GetObjectVersionTagging"
  | .putObjectVersionTaggingAction => "s3:PutObjectVersionTagging"
  | .bypassGovernanceRetentionAction => "s3:BypassGovernanceRetention"
  | .putObjectRetentionAction => "s3:PutObjectRetention"
  | .getObjectRetentionAction => "s3:GetObjectRetention"
  | .getObjectLegalHoldAction => "s3:GetObjectLegalHold"
  | .putObjectLegalHoldAction => "s3:PutObjectLegalHold"
  | .getBucketObjectLockConfigurationAction => "s3:GetBucketObjectLockConfiguration"
  | .putBucketObjectLockConfigurationAction => "s3:PutBucketObjectLockConfiguration"
  | .getBucketTaggingAction => "s3:GetBucketTagging"
  | .putBucketTaggingAction => "s3:PutBucketTagging"
  | .getObjectTaggingAction => "s3:GetObjectTagging"
  | .putObjectTaggingAction => "s3:PutObjectTagging"
  | .deleteObjectTaggingAction => "s3:DeleteObjectTagging"
  | .putBucketEncryptionAction => "s3:PutBucketEncryption"
  | .getBucketEncryptionAction => "s3:GetBucketEncryption"
  | .putBucketVersioningAction => "s3:PutBucketVersioning"
  | .getBucketVersioningAction => "s3:GetBucketVersioning"
  | .getReplicationConfigurationAction => "s3:GetReplicationConfiguration"
  | .putReplicationConfigurationAction => "s3:PutReplicationConfiguration"
  | .replicateObjectAction => "s3:ReplicateObject"
  | .replicateDeleteAction => "s3:ReplicateDelete"
  | .replicateTagsAction => "s3:ReplicateTags"
  | .getObjectVersionForReplicationAction => "s3:GetObjectVersionForReplication"
  | .restoreObjectAction => "s3:RestoreObject"
  | .resetBucketReplicationStateAction => "s3:ResetBucketReplicationState"
  | .putObjectFanOutAction => "s3:PutObjectFanOut"
  | .getBucketQuotaAction => "s3:GetBucketQuota"

inductive AdminAction
  | healAdminAction
  | decommissionAdminAction
  | rebalanceAdminAction
  | storageInfoAdminAction
  | prometheusAdminAction
  | dataUsageInfoAdminAction
  | forceUnlockAdminAction
  | topLocksAdminAction
  | profilingAdminAction
  | traceAdminAction
  | consoleLogAdminAction
  | serverInfoAdminAction
  | healthInfoAdminAction
  | licenseInfoAdminAction
  | bandwidthMonitorAction
  | inspectDataAction
  | serverUpdateAdminAction
  | serviceRestartAdminAction
  | serviceStopAdminAction
  | serviceFreezeAdminAction
  | configUpdateAdminAction
  | createUserAdminAction
  | deleteUserAdminAction
  | listUsersAdminAction
  | enableUserAdminAction
  | disableUserAdminAction
  | getUserAdminAction
  | siteReplicationAddAction
  | siteReplicationDisableAction
  | siteReplicationRemoveAction
  | siteReplicationResyncAction
  | siteReplicationInfoAction
  | siteReplicationOperationAction
  | createServiceAccountAdminAction
  | updateServiceAccountAdminAction
  | removeServiceAccountAdminAction
  | listServiceAccountsAdminAction
  | listTemporaryAccountsAdminAction
  | addUserToGroupAdminAction
  | removeUserFromGroupAdminAction
  | getGroupAdminAction
  | listGroupsAdminAction
  | enableGroupAdminAction
  | disableGroupAdminAction
  | createPolicyAdminAction
  | deletePolicyAdminAction
  | getPolicyAdminAction
  | attachPolicyAdminAction
  | updatePolicyAssociationAction
  | listUserPoliciesAdminAction
  | setBucketQuotaAdminAction
  | setBucketTargetAction
  | getBucketTargetAction
  | setBucketOnDemandMigrationAction
  | getBucketOnDemandMigrationAction
  | getMetricsAction
  | replicationDiff
  | getReplicationMetricsAction
  | importBucketMetadataAction
  | exportBucketMetadataAction
  | getTableCatalogAction
  | migrateTableCatalogAction
  | getTableBucketAction
  | setTableBucketAction
  | getTableNamespaceAction
  | setTableNamespaceAction
  | updateTableNamespacePropertiesAction
  | deleteTableNamespaceAction
  | getTableAction
  | setTableAction
  | createTableAction
  | registerTableAction
  | commitTableAction
  | deleteTableAction
  | getTableLifecycleAction
  | setTableLifecycleAction
  | getTableCredentialsAction
  | runTableMaintenanceAction
  | getTableMetadataLocationAction
  | setTableMetadataLocationAction
  | getTableMetadataAction
  | setTableMetadataAction
  | setTierAction
  | listTierAction
  | exportIAMAction
  | importIAMAction
  | listBatchJobsAction
  | describeBatchJobAction
  | startBatchJobAction
  | cancelBatchJobAction
  | allAdminActions
  deriving DecidableEq

def AdminAction.text : AdminAction → String
  | .healAdminAction => "admin:Heal"
  | .decommissionAdminAction => "admin:Decommission"
  | .rebalanceAdminAction => "admin:Rebalance"
  | .storageInfoAdminAction => "admin:StorageInfo"
  | .prometheusAdminAction => "admin:Prometheus"
  | .dataUsageInfoAdminAction => "admin:DataUsageInfo"
  | .forceUnlockAdminAction => "admin:ForceUnlock"
  | .topLocksAdminAction => "admin:TopLocksInfo"
  | .profilingAdminAction => "admin:Profiling"
  | .traceAdminAction => "admin:ServerTrace"
  | .consoleLogAdminAction => "admin:ConsoleLog"
  | .serverInfoAdminAction => "admin:ServerInfo"
  | .healthInfoAdminAction => "admin:OBDInfo"
  | .licenseInfoAdminAction => "admin:LicenseInfo"
  | .bandwidthMonitorAction => "admin:BandwidthMonitor"
  | .inspectDataAction => "admin:InspectData"
  | .serverUpdateAdminAction => "admin:ServerUpdate"
  | .serviceRestartAdminAction => "admin:ServiceRestart"
  | .serviceStopAdminAction => "admin:ServiceStop"
  | .serviceFreezeAdminAction => "admin:ServiceFreeze"
  | .configUpdateAdminAction => "admin:ConfigUpdate"
  | .createUserAdminAction => "admin:CreateUser"
  | .deleteUserAdminAction => "admin:DeleteUser"
  | .listUsersAdminAction => "admin:ListUsers"
  | .enableUserAdminAction => "admin:EnableUser"
  | .disableUserAdminAction => "admin:DisableUser"
  | .getUserAdminAction => "admin:GetUser"
  | .siteReplicationAddAction => "admin:SiteReplicationAdd"
  | .siteReplicationDisableAction => "admin:SiteReplicationDisable"
  | .siteReplicationRemoveAction => "admin:SiteReplicationRemove"
  | .siteReplicationResyncAction => "admin:SiteReplicationResync"
  | .siteReplicationInfoAction => "admin:SiteReplicationInfo"
  | .siteReplicationOperationAction => "admin:SiteReplicationOperation"
  | .createServiceAccountAdminAction => "admin:CreateServiceAccount"
  | .updateServiceAccountAdminAction => "admin:UpdateServiceAccount"
  | .removeServiceAccountAdminAction => "admin:RemoveServiceAccount"
  | .listServiceAccountsAdminAction => "admin:ListServiceAccounts"
  | .listTemporaryAccountsAdminAction => "admin:ListTemporaryAccounts"
  | .addUserToGroupAdminAction => "admin:AddUserToGroup"
  | .removeUserFromGroupAdminAction => "admin:RemoveUserFromGroup"
  | .getGroupAdminAction => "admin:GetGroup"
  | .listGroupsAdminAction => "admin:ListGroups"
  | .enableGroupAdminAction => "admin:EnableGroup"
  | .disableGroupAdminAction => "admin:DisableGroup"
  | .createPolicyAdminAction => "admin:CreatePolicy"
  | .deletePolicyAdminAction => "admin:DeletePolicy"
  | .getPolicyAdminAction => "admin:GetPolicy"
  | .attachPolicyAdminAction => "admin:AttachUserOrGroupPolicy"
  | .updatePolicyAssociationAction => "admin:UpdatePolicyAssociation"
  | .listUserPoliciesAdminAction => "admin:ListUserPolicies"
  | .setBucketQuotaAdminAction => "admin:SetBucketQuota"
  | .setBucketTargetAction => "admin:SetBucketTarget"
  | .getBucketTargetAction => "admin:GetBucketTarget"
  | .setBucketOnDemandMigrationAction => "admin:SetBucketOnDemandMigration"
  | .getBucketOnDemandMigrationAction => "admin:GetBucketOnDemandMigration"
  | .getMetricsAction => "admin:GetMetrics"
  | .replicationDiff => "admin:ReplicationDiff"
  | .getReplicationMetricsAction => "admin:GetReplicationMetrics"
  | .importBucketMetadataAction => "admin:ImportBucketMetadata"
  | .exportBucketMetadataAction => "admin:ExportBucketMetadata"
  | .getTableCatalogAction => "admin:GetTableCatalog"
  | .migrateTableCatalogAction => "admin:MigrateTableCatalog"
  | .getTableBucketAction => "admin:GetTableBucket"
  | .setTableBucketAction => "admin:SetTableBucket"
  | .getTableNamespaceAction => "admin:GetTableNamespace"
  | .setTableNamespaceAction => "admin:SetTableNamespace"
  | .updateTableNamespacePropertiesAction => "admin:UpdateTableNamespaceProperties"
  | .deleteTableNamespaceAction => "admin:DeleteTableNamespace"
  | .getTableAction => "admin:GetTable"
  | .setTableAction => "admin:SetTable"
  | .createTableAction => "admin:CreateTable"
  | .registerTableAction => "admin:RegisterTable"
  | .commitTableAction => "admin:CommitTable"
  | .deleteTableAction => "admin:DeleteTable"
  | .getTableLifecycleAction => "admin:GetTableLifecycle"
  | .setTableLifecycleAction => "admin:SetTableLifecycle"
  | .getTableCredentialsAction => "admin:GetTableCredentials"
  | .runTableMaintenanceAction => "admin:RunTableMaintenance"
  | .getTableMetadataLocationAction => "admin:GetTableMetadataLocation"
  | .setTableMetadataLocationAction => "admin:SetTableMetadataLocation"
  | .getTableMetadataAction => "admin:GetTableMetadata"
  | .setTableMetadataAction => "admin:SetTableMetadata"
  | .setTierAction => "admin:SetTier"
  | .listTierAction => "admin:ListTier"
  | .exportIAMAction => "admin:ExportIAM"
  | .importIAMAction => "admin:ImportIAM"
  | .listBatchJobsAction => "admin:ListBatchJobs"
  | .describeBatchJobAction => "admin:DescribeBatchJob"
  | .startBatchJobAction => "admin:StartBatchJob"
  | .cancelBatchJobAction => "admin:CancelBatchJob"
  | .allAdminActions => "admin:*"

inductive StsAction
  | allActions
  | assumeRoleAction
  deriving DecidableEq

def StsAction.text : StsAction → String
  | .allActions => "sts:*"
  | .assumeRoleAction => "sts:AssumeRole"

inductive KmsAction
  | allActions
  | configureAction
  | serviceControlAction
  | clearCacheAction
  | generateDataKeyAction
  | deleteKeyAction
  | enableKeyAction
  | disableKeyAction
  | rotateKeyAction
  | updateKeyDescriptionAction
  | tagResourceAction
  | untagResourceAction
  | listKeysAction
  | describeKeyAction
  | decryptAction
  | backupAction
  | restoreAction
  | rekeyAction
  deriving DecidableEq

def KmsAction.text : KmsAction → String
  | .allActions => "kms:*"
  | .configureAction => "kms:Configure"
  | .serviceControlAction => "kms:ServiceControl"
  | .clearCacheAction => "kms:ClearCache"
  | .generateDataKeyAction => "kms:GenerateDataKey"
  | .deleteKeyAction => "kms:DeleteKey"
  | .enableKeyAction => "kms:EnableKey"
  | .disableKeyAction => "kms:DisableKey"
  | .rotateKeyAction => "kms:RotateKey"
  | .updateKeyDescriptionAction => "kms:UpdateKeyDescription"
  | .tagResourceAction => "kms:TagResource"
  | .untagResourceAction => "kms:UntagResource"
  | .listKeysAction => "kms:ListKeys"
  | .describeKeyAction => "kms:DescribeKey"
  | .decryptAction => "kms:Decrypt"
  | .backupAction => "kms:Backup"
  | .restoreAction => "kms:Restore"
  | .rekeyAction => "kms:Rekey"

def AdminAction.isTableResourceScoped : AdminAction → Bool
  | .getTableBucketAction | .setTableBucketAction | .getTableNamespaceAction
  | .setTableNamespaceAction | .updateTableNamespacePropertiesAction
  | .deleteTableNamespaceAction | .getTableAction | .setTableAction | .createTableAction
  | .registerTableAction | .commitTableAction | .deleteTableAction | .getTableLifecycleAction
  | .setTableLifecycleAction | .getTableCredentialsAction | .runTableMaintenanceAction
  | .getTableMetadataLocationAction | .setTableMetadataLocationAction | .getTableMetadataAction
  | .setTableMetadataAction => true
  | _ => false

inductive Action
  | s3Action (action : S3Action)
  | adminAction (action : AdminAction)
  | stsAction (action : StsAction)
  | kmsAction (action : KmsAction)
  | none
  deriving DecidableEq

namespace Action

def text : Action → Str
  | s3Action action => str action.text
  | adminAction action => str action.text
  | stsAction action => str action.text
  | kmsAction action => str action.text
  | none => []

/-- `action_requires_explicit_grant`. -/
def requiresExplicitGrant (action : Action) : Bool :=
  action = s3Action .forceDeleteBucketAction || action = s3Action .forceDeleteObjectAction

/-- A blanket `s3:*` covers a forced delete in a Deny only. -/
def isMatchForEffect (self action : Action) (deny : Bool) : Bool :=
  if !deny && self = s3Action .allActions && action.requiresExplicitGrant then false
  else isMatch self.text action.text

def isKms : Action → Bool
  | kmsAction _ => true
  | _ => false

def isAdmin : Action → Bool
  | adminAction _ => true
  | _ => false

def isSts : Action → Bool
  | stsAction _ => true
  | _ => false

end Action

abbrev ActionSet := List Action

namespace ActionSet

def isMatchForEffect (actions : ActionSet) (action : Action) (deny : Bool) : Bool :=
  actions.any fun act =>
    act.isMatchForEffect action deny ||
      (act = .s3Action .getObjectVersionAction && action = .s3Action .getObjectAction)

def statementCovers (actions notActions : ActionSet) (action : Action) (deny : Bool) : Bool :=
  if notActions.isMatchForEffect action true then false
  else if actions.isEmpty then deny || !action.requiresExplicitGrant
  else actions.isMatchForEffect action deny

end ActionSet

end Rustfs.Policy
