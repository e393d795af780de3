import FlintInit.Library.Collections
import FlintInit.Library.KeyedVec
import FlintInit.Library.Release
import FlintInit.Library.Layers
import FlintInit.Library.Runs
import FlintInit.Library.Deadlines
import FlintInit.Library.Fairness
import FlintInit.Library.Interleaving
import FlintInit.Library.Replacement
import FlintInit.Library.Segments
import FlintInit.Library.Splitting
import FlintInit.Library.Toggles
import FlintInit.Library.MountTree
import FlintInit.Text
import FlintInit.Service
import FlintInit.Graph
import FlintInit.GraphBuild
import FlintInit.CycleCheck
import FlintInit.GraphRelease
import FlintInit.ShutdownOrder
import FlintInit.DirectoryOrder
import FlintInit.Executor
import FlintInit.Supervision
import FlintInit.Shutdown
import FlintInit.Steps
import FlintInit.Bookkeeping
import FlintInit.LiveProcesses
import FlintInit.BootOrder
import FlintInit.LoadedDefs
import FlintInit.QuietBoot
import FlintInit.Cache
import FlintInit.CacheLoad
import FlintInit.CacheFallback
import FlintInit.Watcher
import FlintInit.ManifestContents
import FlintInit.CacheFreshness
import FlintInit.CacheReconcile
import FlintInit.ManifestWrites
import FlintInit.PlainLoad
import FlintInit.Boot
import FlintInit.ReadyFiles
import FlintInit.CommandErrors
import FlintInit.StatusMaps
import FlintInit.FailedServices
import FlintInit.Replies
import FlintInit.CtlServer
import FlintInit.WatchQueue
import FlintInit.ReadyWatch
import FlintInit.HasCycle
import FlintInit.Preflight
import FlintInit.Reload
import FlintInit.Panics
import FlintInit.ReloadErrors
import FlintInit.ServiceRecords
import FlintInit.Restarts
import FlintInit.RestartAccounts
import FlintInit.LoopEnds
import FlintInit.SpawnBudget
import FlintInit.ReplySenders
import FlintInit.ControlProtocol
import FlintInit.Readiness
import FlintInit.RuntimePaths
import FlintInit.Mounts
import FlintInit.MountPoints
import FlintInit.MountOptions
import FlintInit.MountTables
import FlintInit.MountNamespace
import FlintInit.Pid1
import FlintInit.MountLifecycle
import FlintInit.Scaffold
import FlintInit.Catalog
import FlintInit.FlintCtl
import FlintInit.DependencyGet
import FlintInit.CatalogueConfinement
import FlintInit.CatalogCache
