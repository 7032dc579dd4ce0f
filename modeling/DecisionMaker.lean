import DecisionMaker.Core.Extraction
import DecisionMaker.Core.Fence
import DecisionMaker.Core.FirstObject
import DecisionMaker.Core.JsonUtils
import DecisionMaker.Core.LlmUtils
import DecisionMaker.Core.ParserTotality
import DecisionMaker.Core.Payload
import DecisionMaker.Core.RoundTrip
import DecisionMaker.Core.Sanitizer
import DecisionMaker.Graph.Answers
import DecisionMaker.Graph.Capped
import DecisionMaker.Graph.Concurrent
import DecisionMaker.Graph.Counter
import DecisionMaker.Graph.Engine
import DecisionMaker.Graph.Evidence
import DecisionMaker.Graph.FreshStart
import DecisionMaker.Graph.Gate
import DecisionMaker.Graph.Nodes
import DecisionMaker.Graph.Override
import DecisionMaker.Graph.Provenance
import DecisionMaker.Graph.Retry
import DecisionMaker.Graph.Rewrite
import DecisionMaker.Graph.Routing
import DecisionMaker.Graph.SearchLoop
import DecisionMaker.Graph.Serial
import DecisionMaker.Graph.Session
import DecisionMaker.Graph.State
import DecisionMaker.Graph.ToolFacts
import DecisionMaker.Library.Base64
import DecisionMaker.Library.Base64Canonical
import DecisionMaker.Library.Binary64
import DecisionMaker.Library.Builtins
import DecisionMaker.Library.Connection
import DecisionMaker.Library.Delimited
import DecisionMaker.Library.Except
import DecisionMaker.Library.Gather
import DecisionMaker.Library.History
import DecisionMaker.Library.Json
import DecisionMaker.Library.JsonCut
import DecisionMaker.Library.JsonFits
import DecisionMaker.Library.JsonRaises
import DecisionMaker.Library.JsonRender
import DecisionMaker.Library.JsonRoundTrip
import DecisionMaker.Library.JsonScan
import DecisionMaker.Library.JsonString
import DecisionMaker.Library.JsonText
import DecisionMaker.Library.JsonWeight
import DecisionMaker.Library.Keyed
import DecisionMaker.Library.Parts
import DecisionMaker.Library.Pattern
import DecisionMaker.Library.Re
import DecisionMaker.Library.Retention
import DecisionMaker.Library.Schedule
import DecisionMaker.Library.Text
import DecisionMaker.Library.Trim
import DecisionMaker.Library.TtlCache
import DecisionMaker.Library.Utf8
import DecisionMaker.Server.Acknowledged
import DecisionMaker.Server.AtMostOnce
import DecisionMaker.Server.Auth
import DecisionMaker.Server.Chunks
import DecisionMaker.Server.Confinement
import DecisionMaker.Server.CorrelationId
import DecisionMaker.Server.Correspondence
import DecisionMaker.Server.Counters
import DecisionMaker.Server.Deletion
import DecisionMaker.Server.Dialogue
import DecisionMaker.Server.Eviction
import DecisionMaker.Server.Gauge
import DecisionMaker.Server.Http
import DecisionMaker.Server.Idempotency
import DecisionMaker.Server.IdleTtl
import DecisionMaker.Server.Isolation
import DecisionMaker.Server.KeyInput
import DecisionMaker.Server.Ledger
import DecisionMaker.Server.Lifespan
import DecisionMaker.Server.Ownership
import DecisionMaker.Server.Persistence
import DecisionMaker.Server.Replay
import DecisionMaker.Server.ScriptTokens
import DecisionMaker.Server.Service
import DecisionMaker.Server.Smoke
import DecisionMaker.Server.Storage
import DecisionMaker.Server.Survival
import DecisionMaker.Server.Sweeper
import DecisionMaker.Server.TokenCanonicity
import DecisionMaker.Server.TokenRoundTrip
import DecisionMaker.Server.TokenSoundness
import DecisionMaker.Server.Tracking
import DecisionMaker.Server.Turn
import DecisionMaker.Server.TurnNumber
import DecisionMaker.Server.TypedState
import DecisionMaker.Server.VerifierTotality
import DecisionMaker.Ui.Controllers
import DecisionMaker.Ui.Conversation
import DecisionMaker.Ui.Legs
import DecisionMaker.Ui.Presenter
import DecisionMaker.Ui.Submit
import DecisionMaker.Ui.Wiring
import DecisionMaker.Value
