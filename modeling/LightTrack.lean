import LightTrack.Alerts.Ledger
import LightTrack.Alerts.Sign
import LightTrack.Alerts.Vet
import LightTrack.Anon.Scrub
import LightTrack.Api.Attribution
import LightTrack.Api.AuthThrottle
import LightTrack.Api.CanaryRuns
import LightTrack.Api.CapSurfaces
import LightTrack.Api.Contribution
import LightTrack.Api.Escalation
import LightTrack.Api.Idempotency
import LightTrack.Api.Ingest
import LightTrack.Api.LimitsReplay
import LightTrack.Api.LimitsUsage
import LightTrack.Api.LostWrites
import LightTrack.Api.MarginGuardrails
import LightTrack.Api.Poison
import LightTrack.Api.Prepare
import LightTrack.Api.PreviewGrid
import LightTrack.Api.PreviewLive
import LightTrack.Api.PromptCanarySweep
import LightTrack.Api.PromptRegistry
import LightTrack.Api.PromptsGate
import LightTrack.Api.Proximity
import LightTrack.Api.Redact
import LightTrack.Api.Rejections
import LightTrack.Api.Replay
import LightTrack.Api.ScheduleStacking
import LightTrack.Api.ScheduleSweep
import LightTrack.Api.StoredOrder
import LightTrack.Api.Validate
import LightTrack.Api.Views
import LightTrack.Client.Admission
import LightTrack.Client.Limits
import LightTrack.Client.Queue
import LightTrack.Collective.Accumulate
import LightTrack.Collective.Digest
import LightTrack.Collective.DigestText
import LightTrack.Collective.Entry
import LightTrack.Collective.Fair
import LightTrack.Collective.Fold
import LightTrack.Collective.Ingest
import LightTrack.Collective.Merge
import LightTrack.Collective.Pooled
import LightTrack.Collective.Sanitize
import LightTrack.Collective.Suppressed
import LightTrack.Collective.Weights
import LightTrack.Core.Backtest
import LightTrack.Core.Calibration
import LightTrack.Core.Clock
import LightTrack.Core.Event
import LightTrack.Core.Forecast
import LightTrack.Core.Fx
import LightTrack.Core.Json
import LightTrack.Core.Limits
import LightTrack.Core.Margin
import LightTrack.Core.MarginPolicy
import LightTrack.Core.MarginStory
import LightTrack.Core.MarginTrend
import LightTrack.Core.ModelName
import LightTrack.Core.PolicyConvergence
import LightTrack.Core.PolicyPass
import LightTrack.Core.PriceScan
import LightTrack.Core.Pricing
import LightTrack.Core.Prompt
import LightTrack.Core.Provider
import LightTrack.Core.Recognition
import LightTrack.Core.Shed
import LightTrack.Core.Text
import LightTrack.Core.TraceForest
import LightTrack.Core.TraceShape
import LightTrack.Core.TraceTree
import LightTrack.Engine.Aggregate
import LightTrack.Engine.Batch
import LightTrack.Engine.Canonical
import LightTrack.Engine.Error
import LightTrack.Engine.Extract
import LightTrack.Engine.Fence
import LightTrack.Engine.Freeform
import LightTrack.Engine.Grounding
import LightTrack.Engine.Invocation
import LightTrack.Engine.Judge
import LightTrack.Engine.Numeric
import LightTrack.Engine.Pairwise
import LightTrack.Engine.Providers
import LightTrack.Engine.Retry
import LightTrack.Engine.Sample
import LightTrack.Firestore.JobClaim
import LightTrack.Firestore.JobCommit
import LightTrack.Firestore.Jobs
import LightTrack.Firestore.Parity
import LightTrack.Firestore.Rollup
import LightTrack.Gateway.Failover
import LightTrack.Jobs.Cancelled
import LightTrack.Jobs.OneQueue
import LightTrack.Jobs.Queue
import LightTrack.Jobs.Verdict
import LightTrack.Jobs.Worker
import LightTrack.Lib.Answers
import LightTrack.Lib.Ascent
import LightTrack.Lib.Brackets
import LightTrack.Lib.Crossing
import LightTrack.Lib.Cuts
import LightTrack.Lib.Decimal
import LightTrack.Lib.Delimited
import LightTrack.Lib.Extremum
import LightTrack.Lib.Forest
import LightTrack.Lib.Grid
import LightTrack.Lib.Group
import LightTrack.Lib.Kappa
import LightTrack.Lib.Keyed
import LightTrack.Lib.Keyset
import LightTrack.Lib.Moments
import LightTrack.Lib.OrdMap
import LightTrack.Lib.Paging
import LightTrack.Lib.Quota
import LightTrack.Lib.Regex
import LightTrack.Lib.Replace
import LightTrack.Lib.Rewrite
import LightTrack.Lib.RoundRobin
import LightTrack.Lib.Rounding
import LightTrack.Lib.Run
import LightTrack.Lib.Selection
import LightTrack.Lib.Share
import LightTrack.Lib.Significand
import LightTrack.Lib.Slots
import LightTrack.Lib.Stable
import LightTrack.Lib.Stretch
import LightTrack.Lib.Substitute
import LightTrack.Lib.Tally
import LightTrack.Lib.Template
import LightTrack.Lib.Traverse
import LightTrack.Lib.WebUrl
import LightTrack.Lib.Workers
import LightTrack.Otlp.Identity
import LightTrack.Otlp.Linkage
import LightTrack.Otlp.Proto
import LightTrack.Otlp.Semconv
import LightTrack.Otlp.Shape
import LightTrack.Otlp.Traces
import LightTrack.Postgres.Admission
import LightTrack.Postgres.Breakdown
import LightTrack.Postgres.Charged
import LightTrack.Postgres.Gate
import LightTrack.Postgres.Jobs
import LightTrack.Postgres.Jsonb
import LightTrack.Postgres.JsonbText
import LightTrack.Postgres.NoPoison
import LightTrack.Postgres.Rollup
import LightTrack.Postgres.Store
import LightTrack.Postgres.Usage
import LightTrack.Relay.Accounting
import LightTrack.Relay.Action
import LightTrack.Relay.Agent
import LightTrack.Relay.Cadence
import LightTrack.Relay.Capability
import LightTrack.Relay.Delivery
import LightTrack.Relay.Devices
import LightTrack.Relay.Fencing
import LightTrack.Relay.Queue
import LightTrack.Relay.Task
import LightTrack.Responder.Breaker
import LightTrack.Runner.Cases
import LightTrack.Runner.Frontier
import LightTrack.Runner.Matrix
import LightTrack.Runner.MatrixReport
import LightTrack.Runner.Paired
import LightTrack.Runner.Pairwise
import LightTrack.Store.Admission
import LightTrack.Store.BatchRuns
import LightTrack.Store.Breach
import LightTrack.Store.Breakdown
import LightTrack.Store.CacheExact
import LightTrack.Store.CacheRuns
import LightTrack.Store.Calendar
import LightTrack.Store.Codec
import LightTrack.Store.Cursor
import LightTrack.Store.DatasetImport
import LightTrack.Store.DateTime
import LightTrack.Store.EventPages
import LightTrack.Store.Events
import LightTrack.Store.FillAll
import LightTrack.Store.NoPoison
import LightTrack.Store.PriceFill
import LightTrack.Store.Reprice
import LightTrack.Store.Retain
import LightTrack.Store.Revenue
import LightTrack.Store.Rollup
import LightTrack.Store.ScopeUsage
import LightTrack.Store.Sql
import LightTrack.Store.Sqlite
import LightTrack.Store.Threshold
import LightTrack.Store.Timestamp
import LightTrack.Store.TraceDetail
import LightTrack.Store.TracePages
import LightTrack.Store.TraceSummaries
import LightTrack.Store.TraceViews
import LightTrack.Store.Usage
import LightTrack.Store.UsageCache
