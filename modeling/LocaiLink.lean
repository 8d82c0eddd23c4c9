import LocaiLink.Base.Dict
import LocaiLink.Base.Prog
import LocaiLink.Base.Ghost
import LocaiLink.Base.Machine
import LocaiLink.Base.Protocol
import LocaiLink.Base.LockOrder
import LocaiLink.Base.Json
import LocaiLink.Base.Text
import LocaiLink.Base.JsonText
import LocaiLink.Base.JsonExtend
import LocaiLink.Base.JsonTrip
import LocaiLink.Base.JsonPath
import LocaiLink.Base.Lines
import LocaiLink.Base.Numerals
import LocaiLink.Base.Civil
import LocaiLink.Base.Double
import LocaiLink.Base.Runs
import LocaiLink.Base.Percent
import LocaiLink.Base.Cuts
import LocaiLink.Base.Path
import LocaiLink.Base.Fs
import LocaiLink.Base.Triple
import LocaiLink.Base.Stops
import LocaiLink.Base.Walk
import LocaiLink.Base.Drive
import LocaiLink.Base.Framing
import LocaiLink.Runtime.Config
import LocaiLink.Runtime.Store
import LocaiLink.Runtime.Session
import LocaiLink.Runtime.Crash
import LocaiLink.Runtime.Selection
import LocaiLink.Runtime.Templating
import LocaiLink.Runtime.State
import LocaiLink.Runtime.Pipelines
import LocaiLink.Runtime.Deploy
import LocaiLink.Runtime.Reconfigure
import LocaiLink.Runtime.Commands
import LocaiLink.Runtime.Spec
import LocaiLink.Runtime.Quiet
import LocaiLink.Runtime.StoreSteps
import LocaiLink.Runtime.Threads
import LocaiLink.Runtime.RunningConfig
import LocaiLink.Runtime.StopFailure
import LocaiLink.Runtime.Swap
import LocaiLink.Runtime.Push
import LocaiLink.Runtime.HotSwap
import LocaiLink.Runtime.History
import LocaiLink.Runtime.AtomicPush
import LocaiLink.Runtime.StoreRace
import LocaiLink.Runtime.Refines
import LocaiLink.Runtime.Persistence
import LocaiLink.Runtime.Recovery
import LocaiLink.Runtime.Actions
import LocaiLink.Runtime.Answers
import LocaiLink.Runtime.Serving
import LocaiLink.Runtime.Served
import LocaiLink.Runtime.ServedRuns
import LocaiLink.Runtime.Uninstall
import LocaiLink.Runtime.Workers
import LocaiLink.Runtime.Registry
import LocaiLink.Runtime.DeployRuns
import LocaiLink.Runtime.Artifacts
import LocaiLink.Runtime.Couriers
import LocaiLink.Runtime.Deliveries
import LocaiLink.Runtime.Delivered
import LocaiLink.Runtime.Process
import LocaiLink.Runtime.Locks
import LocaiLink.Runtime.Notices
import LocaiLink.Runtime.Starts
import LocaiLink.Install.Disk
import LocaiLink.Install.Pointers
import LocaiLink.Install.Rules
import LocaiLink.Install.Readers
import LocaiLink.Install.Download
import LocaiLink.Install.Flip
import LocaiLink.Install.Release
import LocaiLink.Install.Assets
import LocaiLink.Install.Sidecars
import LocaiLink.Install.Checksums
import LocaiLink.Install.Update
import LocaiLink.Install.Newer
import LocaiLink.Install.Retention
import LocaiLink.Install.Supervisor
import LocaiLink.Install.Target
import LocaiLink.Install.Spared
import LocaiLink.Install.Rollback
import LocaiLink.Install.Atomic
import LocaiLink.Install.Gate
import LocaiLink.Install.Apps
import LocaiLink.Install.Converge
import LocaiLink.Install.Replaced
import LocaiLink.Artifacts.Manifest
import LocaiLink.Artifacts.Publish
import LocaiLink.Artifacts.Layout
import LocaiLink.Artifacts.Published
import LocaiLink.Artifacts.Engines
import LocaiLink.Artifacts.Transaction
import LocaiLink.Artifacts.EngineRuns
import LocaiLink.Artifacts.Extracted
import LocaiLink.Launcher.Control
import LocaiLink.Launcher.Tray
import LocaiLink.Launcher.Menu
import LocaiLink.Launcher.Toggle
import LocaiLink.Launcher.Setup
import LocaiLink.Serving.Proxy
import LocaiLink.Serving.Relay
import LocaiLink.Serving.Chunking
import LocaiLink.Serving.SwapManager
import LocaiLink.Serving.Ports
import LocaiLink.Serving.Adapters
import LocaiLink.Serving.References
import LocaiLink.Serving.SwapLocks
import LocaiLink.Serving.Tenants
import LocaiLink.Serving.Kept
import LocaiLink.Serving.Additions
import LocaiLink.Components.CommandSink
import LocaiLink.Components.Batch
import LocaiLink.Utils.Logger
import LocaiLink.Utils.Reports
import LocaiLink.Utils.Archive
import LocaiLink.Utils.Extraction
import LocaiLink.Install.Tarball
import LocaiLink.Install.Metadata
import LocaiLink.Install.Bootstrap
import LocaiLink.Install.FirstLaunch
import LocaiLink.Install.TakenBack
import LocaiLink.Install.Confinement
import LocaiLink.Launcher.Timestamps
import LocaiLink.Runtime.Onboarding
import LocaiLink.Runtime.Enrolment
import LocaiLink.Plugins.Events
import LocaiLink.Plugins.Listening
import LocaiLink.Runtime.Deployments
import LocaiLink.Launcher.Catalog
import LocaiLink.Launcher.Loopback
import LocaiLink.Launcher.SignIn
import LocaiLink.Launcher.Wizard
import LocaiLink.Plugins.Chat
import LocaiLink.Plugins.Lifecycle
