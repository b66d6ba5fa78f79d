import AgoraEtl.Effect.Stages
import AgoraEtl.Effect.Tasks
import AgoraEtl.Delivery.PartialFailure
import AgoraEtl.Delivery.Cadence
import AgoraEtl.Delivery.PendingOwner
import AgoraEtl.Delivery.DirectFlush
import AgoraEtl.Delivery.FirstUnrouted
import AgoraEtl.Middleware.BatchAgreement
import AgoraEtl.Middleware.BatchContract
import AgoraEtl.Lanes.BatchFailure
import AgoraEtl.Lanes.ArrowFailure
import AgoraEtl.Lanes.ArrowRouting
import AgoraEtl.Schema.Reprocessing
import AgoraEtl.Dlq.Replay
import AgoraEtl.Dlq.Limit
import AgoraEtl.Dlq.Redaction
import AgoraEtl.Middleware.Dedup
import AgoraEtl.Middleware.ProcessPool
import AgoraEtl.Runner.RunWithAbort
import AgoraEtl.Runner.Scheduler
import AgoraEtl.Sources.SourceQueue
import AgoraEtl.Sources.CircuitBreaker
import AgoraEtl.Sources.Throttle
import AgoraEtl.Sources.HttpCache
import AgoraEtl.Sources.CacheKeys
import AgoraEtl.Sources.BulkWrite
import AgoraEtl.Sources.Limited
import AgoraEtl.Sources.File.Parquet
import AgoraEtl.Sources.File.Arrow
import AgoraEtl.Sources.File.ResumeRuns
import AgoraEtl.Session.Lifecycle
import AgoraEtl.Session.TerminalReason
import AgoraEtl.Lanes.BufferedOrder
import AgoraEtl.Lanes.InFlight
import AgoraEtl.Lanes.BufferedFailure
import AgoraEtl.Lanes.BufferedAgreement
import AgoraEtl.Lanes.LinearRuns
import AgoraEtl.Sinks.FanOut
import AgoraEtl.Sinks.FanOutReports
import AgoraEtl.Sinks.Router
import AgoraEtl.Sinks.RouterAgreement
import AgoraEtl.Sinks.OpenClose
import AgoraEtl.Sinks.FanOutArrow
import AgoraEtl.Data.Grouping
import AgoraEtl.Data.Like
import AgoraEtl.Data.JsonText
import AgoraEtl.Data.Joined
import AgoraEtl.Data.LastWrite
import AgoraEtl.Data.StrFormat
import AgoraEtl.State.Backend
import AgoraEtl.State.KeyValue
import AgoraEtl.Middleware.FuzzyDedup
import AgoraEtl.Middleware.DedupFailOpen
import AgoraEtl.Ai.Budget
import AgoraEtl.Data.OpenFile
import AgoraEtl.Sinks.File.Buffered
import AgoraEtl.Sinks.File.Csv
import AgoraEtl.Sinks.File.JsonLines
import AgoraEtl.Sinks.File.CsvOutput
import AgoraEtl.Schema.Store
import AgoraEtl.Schema.Stores
import AgoraEtl.Schema.Pydantic
import AgoraEtl.Schema.Frozen
import AgoraEtl.Ai.BatchFutures
import AgoraEtl.Ai.LlmCache
import AgoraEtl.Ai.Prompt
import AgoraEtl.Effect.Guarded
import AgoraEtl.Effect.Graded
import AgoraEtl.Delivery.Fencing
import AgoraEtl.Delivery.Accounting
import AgoraEtl.Lanes.Fencing
import AgoraEtl.Lanes.Accounting
import AgoraEtl.Runner.Takeover
import AgoraEtl.Effect.Protocol
import AgoraEtl.Runner.Leased
import AgoraEtl.Runner.Exclusive
import AgoraEtl.Lanes.LinearDirect
import AgoraEtl.Lanes.Restarts
import AgoraEtl.Data.DataTree
import AgoraEtl.Config.Documents
import AgoraEtl.Config.Layers
import AgoraEtl.Config.References
import AgoraEtl.Config.Components
import AgoraEtl.Config.Imports
import AgoraEtl.Config.Resolution
import AgoraEtl.Data.CsvText
import AgoraEtl.Sources.File.CsvFiles
import AgoraEtl.Runner.WorkerPool
import AgoraEtl.State.Checkpoints
import AgoraEtl.Config.Container
