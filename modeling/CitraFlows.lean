import CitraFlows.Python
import CitraFlows.Models
import CitraFlows.Lib.Worklist
import CitraFlows.Lib.Deduplication
import CitraFlows.Lib.Interleaving
import CitraFlows.Lib.Processes
import CitraFlows.Lib.RedisStream
import CitraFlows.Lib.Raising
import CitraFlows.Lib.Scanning
import CitraFlows.Lib.SqlText
import CitraFlows.Lib.RedisKeys
import CitraFlows.Lib.KeyedLists
import CitraFlows.Lib.ElementWise
import CitraFlows.Lib.JsonHoles
import CitraFlows.Executor.Routing
import CitraFlows.Executor.Loop
import CitraFlows.Executor.Steps
import CitraFlows.Executor.Invariants
import CitraFlows.Executor.Runs
import CitraFlows.Executor.Order
import CitraFlows.Dag
import CitraFlows.Executor.Completeness
import CitraFlows.Executor.ValidatedGraphs
import CitraFlows.Executor.Pruning
import CitraFlows.Executor.Approvals
import CitraFlows.Executor.VariableFlow
import CitraFlows.Executor.Cleanup
import CitraFlows.Executor.SoftFailures
import CitraFlows.Nodes.Logic
import CitraFlows.Nodes.SwitchRouting
import CitraFlows.Nodes.Merging
import CitraFlows.Queue.Model
import CitraFlows.Queue.Reads
import CitraFlows.Queue.Loops
import CitraFlows.Queue.Delivery
import CitraFlows.Queue.Holders
import CitraFlows.Executor.ConcurrencyGate
import CitraFlows.Executor.Payloads
import CitraFlows.Scheduler.Leadership
import CitraFlows.Scheduler.CronFire
import CitraFlows.Scheduler.CronTable
import CitraFlows.Scheduler.TableMatch
import CitraFlows.Triggers.Paths
import CitraFlows.Triggers.Stranding
import CitraFlows.Workflows.Model
import CitraFlows.Workflows.Webhook
import CitraFlows.Workflows.Steps
import CitraFlows.Workflows.Parsing
import CitraFlows.Workflows.Updates
import CitraFlows.Workflows.DeployGate
import CitraFlows.Workflows.Snapshots
import CitraFlows.Lifecycle.Model
import CitraFlows.Lifecycle.Steps
import CitraFlows.Lifecycle.Terminal
import CitraFlows.Lifecycle.Resumption
import CitraFlows.Lifecycle.ApprovalTimeouts
import CitraFlows.Lifecycle.Rejection
import CitraFlows.Lifecycle.Reaper
import CitraFlows.Media.Model
import CitraFlows.Media.Sweep
import CitraFlows.Assistant.Json
import CitraFlows.Assistant.WorkingCopy
import CitraFlows.Connections.Crypto
import CitraFlows.Connections.Masking
import CitraFlows.Connections.Resolver
import CitraFlows.Connections.Isolation
import CitraFlows.Nodes.State
import CitraFlows.Nodes.Template
import CitraFlows.Nodes.Interpolation
import CitraFlows.Nodes.Rendering
import CitraFlows.Nodes.SqlGuards
import CitraFlows.Nodes.SqlParameters
import CitraFlows.Nodes.VectorSearch
import CitraFlows.Nodes.Verdicts
import CitraFlows.Nodes.RulesText
import CitraFlows.Nodes.RulesDecision
import CitraFlows.Nodes.RulesEngine
import CitraFlows.Nodes.VectorFilters
import CitraFlows.Nodes.Deduplicator
import CitraFlows.Nodes.StateRuns
import CitraFlows.Nodes.EmailSender
import CitraFlows.Assistant.Turns
import CitraFlows.Assistant.TestRuns
import CitraFlows.Canvas.OutputHandles
import CitraFlows.Canvas.SwitchHandles
import CitraFlows.Canvas.Equality
import CitraFlows.Canvas.Diff
import CitraFlows.Canvas.RoundTrip
import CitraFlows.Services.CircuitBreaker
import CitraFlows.Users.Coupons
import CitraFlows.Users.Redemption
import CitraFlows.Users.AddCredits
import CitraFlows.Sandbox.Reset
import CitraFlows.Sandbox.FileCache
import CitraFlows.Sandbox.CacheHits
import CitraFlows.Workflows.KillSwitch
import CitraFlows.Workflows.Halting
import CitraFlows.Nodes.Base
import CitraFlows.Nodes.Floats
import CitraFlows.Nodes.Retries
import CitraFlows.Nodes.Placeholders
import CitraFlows.Nodes.Reranking
import CitraFlows.Nodes.Exports
import CitraFlows.Nodes.ExtractedFields
import CitraFlows.Nodes.ToolArguments
import CitraFlows.Agents.ReadOnly
import CitraFlows.Agents.Loop
import CitraFlows.Agents.WriteBlock
import CitraFlows.Agents.OfferedTools
import CitraFlows.Budget.Charges
import CitraFlows.Budget.Runs
import CitraFlows.Budget.AgentCharges
import CitraFlows.Sandbox.Pool
import CitraFlows.Sandbox.PoolSteps
import CitraFlows.Sandbox.PoolRuns
import CitraFlows.Nodes.UrlGuards
import CitraFlows.Scheduler.CronCap
import CitraFlows.Triggers.RateLimit
import CitraFlows.Nodes.RemotePaths
import CitraFlows.Nodes.Chunking
import CitraFlows.Users.DirectoryGroups
import CitraFlows.Lib.Noninterference
import CitraFlows.Lib.Tables
import CitraFlows.Tenants.Access
import CitraFlows.Tenants.Model
import CitraFlows.Tenants.Steps
import CitraFlows.Tenants.Ownership
import CitraFlows.Tenants.Isolation
import CitraFlows.Executor.RaceFree
import CitraFlows.Users.Impersonation
import CitraFlows.Users.Revocation
import CitraFlows.Lib.Logs
import CitraFlows.Lib.ToolChat
import CitraFlows.Agents.Conversation
import CitraFlows.Llm.Calls
import CitraFlows.Llm.Runs
import CitraFlows.Lib.Potential
import CitraFlows.Lifecycle.Recovery
import CitraFlows.Assistant.Loop
import CitraFlows.Assistant.Proposals
