import AgenticOctopus.Api.Authority
import AgenticOctopus.Api.ChatRoutes
import AgenticOctopus.Api.ChatStream
import AgenticOctopus.Api.Closing
import AgenticOctopus.Api.CompletionAgreement
import AgenticOctopus.Api.CompletionLog
import AgenticOctopus.Api.Completions
import AgenticOctopus.Api.Endings
import AgenticOctopus.Api.Following
import AgenticOctopus.Api.Gateway
import AgenticOctopus.Api.LeadIn
import AgenticOctopus.Api.MalformedEvents
import AgenticOctopus.Api.ModelCaches
import AgenticOctopus.Api.ModelList
import AgenticOctopus.Api.OpenAICompat
import AgenticOctopus.Api.Passthrough
import AgenticOctopus.Api.ShimStream
import AgenticOctopus.Api.Surfaces
import AgenticOctopus.Api.TagsHeader
import AgenticOctopus.Chat.Accounting
import AgenticOctopus.Chat.Agreement
import AgenticOctopus.Chat.CallProtocol
import AgenticOctopus.Chat.Chunking
import AgenticOctopus.Chat.ClaudeTurns
import AgenticOctopus.Chat.Context
import AgenticOctopus.Chat.Cuts
import AgenticOctopus.Chat.Detection
import AgenticOctopus.Chat.Ledger
import AgenticOctopus.Chat.Memory
import AgenticOctopus.Chat.Record
import AgenticOctopus.Chat.Rounds
import AgenticOctopus.Chat.Service
import AgenticOctopus.Chat.Sse
import AgenticOctopus.Chat.Store
import AgenticOctopus.Chat.StoredTurns
import AgenticOctopus.Chat.Streaming
import AgenticOctopus.Chat.Tags
import AgenticOctopus.Chat.ToolProtocol
import AgenticOctopus.Chat.ToolRounds
import AgenticOctopus.Chat.Usage
import AgenticOctopus.Chat.WebTools
import AgenticOctopus.Foundation.Binary64
import AgenticOctopus.Foundation.Dict
import AgenticOctopus.Foundation.Encoding
import AgenticOctopus.Foundation.EventStream
import AgenticOctopus.Foundation.Framing
import AgenticOctopus.Foundation.Json
import AgenticOctopus.Foundation.JsonDecimals
import AgenticOctopus.Foundation.JsonLimits
import AgenticOctopus.Foundation.JsonNesting
import AgenticOctopus.Foundation.JsonPrintable
import AgenticOctopus.Foundation.JsonReading
import AgenticOctopus.Foundation.JsonRounding
import AgenticOctopus.Foundation.JsonSpelling
import AgenticOctopus.Foundation.JsonText
import AgenticOctopus.Foundation.JsonTokens
import AgenticOctopus.Foundation.JsonWriting
import AgenticOctopus.Foundation.Lines
import AgenticOctopus.Foundation.Machine
import AgenticOctopus.Foundation.Matching
import AgenticOctopus.Foundation.Program
import AgenticOctopus.Foundation.Table
import AgenticOctopus.Foundation.Text
import AgenticOctopus.Foundation.Transaction
import AgenticOctopus.Foundation.Triple
import AgenticOctopus.Foundation.TtlCache
import AgenticOctopus.Providers.Claude
import AgenticOctopus.Providers.ClaudeMessages
import AgenticOctopus.Providers.Config
import AgenticOctopus.Providers.CostGuard
import AgenticOctopus.Providers.OpenRouter
import AgenticOctopus.Providers.Routing
import AgenticOctopus.Spine.Approvals
import AgenticOctopus.Spine.Claimers
import AgenticOctopus.Spine.ConcurrentClaims
import AgenticOctopus.Spine.Effects
import AgenticOctopus.Spine.Firing
import AgenticOctopus.Spine.FiringHistory
import AgenticOctopus.Spine.Guarantees
import AgenticOctopus.Spine.Invariants
import AgenticOctopus.Spine.Journal
import AgenticOctopus.Spine.Lifecycle
import AgenticOctopus.Spine.Migrations
import AgenticOctopus.Spine.Models
import AgenticOctopus.Spine.Operation
import AgenticOctopus.Spine.PostedSchedules
import AgenticOctopus.Spine.Queue
import AgenticOctopus.Spine.RacingClaims
import AgenticOctopus.Spine.Reaping
import AgenticOctopus.Spine.Refinement
import AgenticOctopus.Spine.Registry
import AgenticOctopus.Spine.Replay
import AgenticOctopus.Spine.Scheduler
import AgenticOctopus.Spine.Schema
import AgenticOctopus.Spine.Seeding
import AgenticOctopus.Spine.Sweeps
import AgenticOctopus.Spine.Tending
import AgenticOctopus.Spine.TickGuarantees
import AgenticOctopus.Spine.Ticks
import AgenticOctopus.Spine.Upgrades
import AgenticOctopus.Worker.ApprovedParams
import AgenticOctopus.Worker.Attempts
import AgenticOctopus.Worker.Chronology
import AgenticOctopus.Worker.ClaudeSDKExecutor
import AgenticOctopus.Worker.Consent
import AgenticOctopus.Worker.Fencing
import AgenticOctopus.Worker.Leases
import AgenticOctopus.Worker.Loop
import AgenticOctopus.Worker.OpenRouterExecutor
import AgenticOctopus.Worker.Overtaking
import AgenticOctopus.Worker.Process
import AgenticOctopus.Worker.Steps
import AgenticOctopus.Worker.Survival
