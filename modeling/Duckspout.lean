import Duckspout.Types
import Duckspout.Lib.Ranges
import Duckspout.Lib.Islands
import Duckspout.Lib.OrdMap
import Duckspout.Watermark.Coverage
import Duckspout.Watermark.Ledger
import Duckspout.Watermark.Advance
import Duckspout.Watermark.History
import Duckspout.Watermark.Reconstruct
import Duckspout.Watermark.Loss
import Duckspout.Replication.Protocol
import Duckspout.Replication.Boot
import Duckspout.Replication.Routing
import Duckspout.Replication.Receive
import Duckspout.Replication.Takeover
import Duckspout.Lib.Fallible
import Duckspout.Lib.Tally
import Duckspout.Lib.Prog
import Duckspout.Lib.Threads
import Duckspout.Lib.Snapshot
import Duckspout.Lib.Checked
import Duckspout.Lib.Groups
import Duckspout.Lib.Maxima
import Duckspout.Lib.Ranks
import Duckspout.Naming
import Duckspout.Lake.Catalog
import Duckspout.Lake.Committer
import Duckspout.Lake.Transaction
import Duckspout.Lake.Fence
import Duckspout.Lake.SingleCommit
import Duckspout.Lake.RoundTrip
import Duckspout.Drain.Coordinator
import Duckspout.Lake.Port
import Duckspout.Drain.System
import Duckspout.Drain.Outline
import Duckspout.Drain.NoLoss
import Duckspout.Watermark.Core
import Duckspout.Drain.Agreement
import Duckspout.Lake.Schema
import Duckspout.Lake.Published
import Duckspout.Drain.Isolation
import Duckspout.Drain.Reconcile
import Duckspout.Staging.Engine
import Duckspout.Staging.Dense
import Duckspout.Staging.Stager
import Duckspout.Staging.Ladder
import Duckspout.Staging.System
import Duckspout.Staging.Dedup
import Duckspout.Staging.Eviction
import Duckspout.Staging.Replay
import Duckspout.Staging.Windows
import Duckspout.Staging.Closed
import Duckspout.Staging.Drop
import Duckspout.Staging.WindowIds
import Duckspout.Staging.Manifest
import Duckspout.Staging.Runs
import Duckspout.Accept.Otlp
import Duckspout.Accept.Server
import Duckspout.Judge.LatestView
import Duckspout.Judge.Evidence
import Duckspout.Judge.WatermarkHonesty
import Duckspout.Judge.LatestVerdict
import Duckspout.Replication.Residue
import Duckspout.Judge.Retention
import Duckspout.Judge.CacheTransparency
import Duckspout.Fleet.RunLog
import Duckspout.Judge.Continuity
import Duckspout.Judge.Ingest
import Duckspout.Judge.AckedLost
import Duckspout.Fleet.Dsn
import Duckspout.Daemon.Storage
import Duckspout.Daemon.Crash
import Duckspout.Ctk.Scheduler
import Duckspout.Ctk.Completion
import Duckspout.Fleet.Link
import Duckspout.Fleet.Proxy
import Duckspout.Fleet.Pump
import Duckspout.Judge.LineFile
import Duckspout.Judge.FaultLedger
import Duckspout.Fleet.FaultLog
import Duckspout.Fleet.Injectors
import Duckspout.Judge.EvidenceFiles
import Duckspout.Judge.Vacuity
import Duckspout.Judge.Order
import Duckspout.Judge.Passes
import Duckspout.Judge.Runner
import Duckspout.Loadgen.Client
import Duckspout.Loadgen.Journal
import Duckspout.Loadgen.Run
import Duckspout.Loadgen.Evidence
import Duckspout.Loadgen.Fleet
import Duckspout.Loadgen.Acks
