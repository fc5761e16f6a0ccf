import Rustfs.App.Authorize
import Rustfs.App.UploadPart
import Rustfs.Ecstore.AgreedEntry
import Rustfs.Ecstore.CheckParts
import Rustfs.Ecstore.Dangling
import Rustfs.Ecstore.DecodeReader
import Rustfs.Ecstore.DisksLayout
import Rustfs.Ecstore.DriveShuffle
import Rustfs.Ecstore.EarlyStop
import Rustfs.Ecstore.EncryptedRange
import Rustfs.Ecstore.HealRuns
import Rustfs.Ecstore.IndexPages
import Rustfs.Ecstore.ListAccount
import Rustfs.Ecstore.ListMarker
import Rustfs.Ecstore.Lockstep
import Rustfs.Ecstore.MergeRuns
import Rustfs.Ecstore.QuotaLedger
import Rustfs.Ecstore.RangedDecompress
import Rustfs.Ecstore.VersionPages
import Rustfs.Ecstore.WalkMerge
import Rustfs.Filemeta.FailedEdits
import Rustfs.Filemeta.HealDiscovery
import Rustfs.Filemeta.Reload
import Rustfs.Heal.MrfQueue
import Rustfs.Lifecycle.Prediction
import Rustfs.Lifecycle.Retention
import Rustfs.Lifecycle.RuleOrder
import Rustfs.Lock.AttemptSuccess
import Rustfs.Lock.GuardHolds
import Rustfs.Lock.IdleCleanup
import Rustfs.Lock.LeaseInvariant
import Rustfs.Lock.PackedState
import Rustfs.ObjectDataCache.Publication
import Rustfs.Policy.ContextVariables
import Rustfs.Policy.LazyBuf
import Rustfs.Policy.Merge
import Rustfs.Replication.Merge
import Rustfs.Rio.DecryptReader
import Rustfs.Rio.IndexStorage
import Rustfs.Scanner.Traversal
import Rustfs.StorageApi.RangeSpec
import Rustfs.TableCatalog.CommitRuns
