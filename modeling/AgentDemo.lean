import AgentDemo.Agent.Answers
import AgentDemo.Agent.ContextBudget
import AgentDemo.Agent.CurrentPlans
import AgentDemo.Agent.Edges
import AgentDemo.Agent.Events
import AgentDemo.Agent.Execution
import AgentDemo.Agent.Footprint
import AgentDemo.Agent.Graph
import AgentDemo.Agent.Messages
import AgentDemo.Agent.PlanGate
import AgentDemo.Agent.Planning
import AgentDemo.Agent.ProtocolSafety
import AgentDemo.Agent.QuotedProtocol
import AgentDemo.Agent.RawToolProtocol
import AgentDemo.Agent.Requests
import AgentDemo.Agent.ResponsePolicy
import AgentDemo.Agent.SearchTrace
import AgentDemo.Agent.State
import AgentDemo.Agent.Text
import AgentDemo.Api.Auth
import AgentDemo.Api.Conversations
import AgentDemo.Api.Login
import AgentDemo.Api.OwnRows
import AgentDemo.Api.TaskSchedules
import AgentDemo.Api.Tasks
import AgentDemo.Core.McpSecrets
import AgentDemo.Core.McpSecurity
import AgentDemo.Environment
import AgentDemo.Frontend.EventChunks
import AgentDemo.Frontend.EventDelivery
import AgentDemo.Frontend.EventStream
import AgentDemo.Library.Batches
import AgentDemo.Library.Dictionary
import AgentDemo.Library.FileTree
import AgentDemo.Library.FloatOrder
import AgentDemo.Library.Greedy
import AgentDemo.Library.IpText
import AgentDemo.Library.Ipv6Text
import AgentDemo.Library.IsoFormat
import AgentDemo.Library.Isolation
import AgentDemo.Library.JsonBytes
import AgentDemo.Library.JsonRoundTrip
import AgentDemo.Library.JsonSchema
import AgentDemo.Library.JsonText
import AgentDemo.Library.Locks
import AgentDemo.Library.Occurrences
import AgentDemo.Library.Outline
import AgentDemo.Library.PairSplit
import AgentDemo.Library.Program
import AgentDemo.Library.PythonNet
import AgentDemo.Library.Query
import AgentDemo.Library.Ranking
import AgentDemo.Library.RealPath
import AgentDemo.Library.Redaction
import AgentDemo.Library.Runs
import AgentDemo.Library.Scanning
import AgentDemo.Library.Table
import AgentDemo.Library.TableFilter
import AgentDemo.Library.Transition
import AgentDemo.Library.Windows
import AgentDemo.Mcp.Catalog
import AgentDemo.Mcp.CatalogCache
import AgentDemo.Mcp.Discovery
import AgentDemo.Mcp.ErrorRecords
import AgentDemo.Mcp.ErrorSecrecy
import AgentDemo.Mcp.LegacyFraming
import AgentDemo.Mcp.LegacySession
import AgentDemo.Mcp.LegacyStdio
import AgentDemo.Mcp.Registry
import AgentDemo.Mcp.ToolDescriptions
import AgentDemo.Models.Conversation
import AgentDemo.Models.Knowledge
import AgentDemo.Models.Task
import AgentDemo.Models.TaskSchedule
import AgentDemo.Models.Tool
import AgentDemo.Plugins.Confinement
import AgentDemo.Plugins.Listings
import AgentDemo.Plugins.Workspace
import AgentDemo.Services.AgentTaskRunner
import AgentDemo.Services.AlignedEmbeddings
import AgentDemo.Services.ArgumentValidation
import AgentDemo.Services.AuthLimits
import AgentDemo.Services.Chunking
import AgentDemo.Services.DailyOccurrences
import AgentDemo.Services.Dispatch
import AgentDemo.Services.DiverseTexts
import AgentDemo.Services.Diversity
import AgentDemo.Services.DueOccurrences
import AgentDemo.Services.Embeddings
import AgentDemo.Services.FusedOrder
import AgentDemo.Services.FusedRanks
import AgentDemo.Services.KnowledgeIndex
import AgentDemo.Services.LocalJobs
import AgentDemo.Services.Memory
import AgentDemo.Services.ModelGateway
import AgentDemo.Services.OutputSize
import AgentDemo.Services.OutputTruncation
import AgentDemo.Services.ProviderReplies
import AgentDemo.Services.Rag
import AgentDemo.Services.RankFusion
import AgentDemo.Services.RebuiltSections
import AgentDemo.Services.RerankOrder
import AgentDemo.Services.RerankedPool
import AgentDemo.Services.RetrievalReranker
import AgentDemo.Services.SectionAgreement
import AgentDemo.Services.Sections
import AgentDemo.Services.TaskLease
import AgentDemo.Services.TaskScheduler
import AgentDemo.Services.TaskSchedules
import AgentDemo.Services.ToolApprovals
import AgentDemo.Services.ToolExecution
import AgentDemo.Services.ToolExecutor
import AgentDemo.Services.ToolOutput
import AgentDemo.Services.ToolRun
import AgentDemo.System.AgentRuns
import AgentDemo.System.ApiCalls
import AgentDemo.System.ApprovalLifeCycle
import AgentDemo.System.Approvals
import AgentDemo.System.BackgroundRuns
import AgentDemo.System.Budget
import AgentDemo.System.CatalogCache
import AgentDemo.System.CatalogRefresh
import AgentDemo.System.CatchUp
import AgentDemo.System.ConfirmationGate
import AgentDemo.System.ConfirmedExecution
import AgentDemo.System.ConversationLinks
import AgentDemo.System.ConversationOwners
import AgentDemo.System.DailySchedules
import AgentDemo.System.DispatchIsolation
import AgentDemo.System.EventLog
import AgentDemo.System.Fencing
import AgentDemo.System.FetchUrlGuard
import AgentDemo.System.ForgottenMemory
import AgentDemo.System.GraphRuns
import AgentDemo.System.IdempotentCreation
import AgentDemo.System.JobDrain
import AgentDemo.System.JobTable
import AgentDemo.System.LoginRaces
import AgentDemo.System.ManualTasks
import AgentDemo.System.MemoryConsumption
import AgentDemo.System.MemorySessions
import AgentDemo.System.MemoryWorld
import AgentDemo.System.RateWindows
import AgentDemo.System.Reindexing
import AgentDemo.System.Replay
import AgentDemo.System.RetrievalIsolation
import AgentDemo.System.RowInvariant
import AgentDemo.System.RowOrigins
import AgentDemo.System.SavedAnswer
import AgentDemo.System.ScheduleLinks
import AgentDemo.System.ScheduledDeadline
import AgentDemo.System.Schedules
import AgentDemo.System.SearchEnds
import AgentDemo.System.SearchResume
import AgentDemo.System.SearchRuns
import AgentDemo.System.SearchSession
import AgentDemo.System.SessionCap
import AgentDemo.System.SessionLife
import AgentDemo.System.StreamReply
import AgentDemo.System.TaskHistory
import AgentDemo.System.TaskLifeCycle
import AgentDemo.System.TaskTimes
import AgentDemo.System.TenantIsolation
import AgentDemo.System.ToolDispatch
import AgentDemo.System.Traffic
import AgentDemo.System.TurnMessages
import AgentDemo.System.World
import AgentDemo.Values
