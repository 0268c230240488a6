import KimiCli.Loop.ThrowingStart
import KimiCli.Acp.ToolCards
import KimiCli.Session.BatchProgress
import KimiCli.Session.TaskRegistry
import KimiCli.Gateway.JournalFile
import KimiCli.Gateway.FlushHandover
import KimiCli.Web.CursorSync
import KimiCli.Web.ToolOutput
import KimiCli.Permission.PlanReview
import KimiCli.Prompt.Lifecycle
import KimiCli.Prompt.FailedSteer
import KimiCli.Context.Accounting
import KimiCli.Context.MicroCompaction
import KimiCli.Context.InjectedAt
import KimiCli.Context.SmartStrategy
import KimiCli.Cron.Delivery
import KimiCli.Cron.LocalRun
import KimiCli.Goal.RegistryFlag
import KimiCli.Hooks.Runner
import KimiCli.Plan.Resume
import KimiCli.Server.Lock
import KimiCli.Server.ApprovalService
import KimiCli.Mcp.ToolTable
import KimiCli.OAuth.RefreshOnce
import KimiCli.Migration.CloseToolCalls
import KimiCli.Swarm.Waiters
import KimiCli.Swarm.Pairing
import KimiCli.Fs.ExactWatches
import KimiCli.Terminal.AttachReplay
import KimiCli.Agent.DedupStreaks
import KimiCli.Agent.EarlyDeltas
import KimiCli.Agent.TurnFlow
import KimiCli.Workspace.ExclusiveWrites
import KimiCli.Records.ResumedProjection
import KimiCli.Background.OutputLog
import KimiCli.Cron.PersistQueue
import KimiCli.Kosong.ThinkTags
import KimiCli.Plan.EnterOrder
import KimiCli.Session.OrchestrationDrain
import KimiCli.Session.MemoryStore
import KimiCli.Session.SubagentHost
import KimiCli.Session.SessionPages
import KimiCli.Tools.Edit
import KimiCli.Kosong.ToolCallStream
import KimiCli.Mcp.AccessPatterns
import KimiCli.Kaos.ExecCommand
import KimiCli.Kosong.AnthropicRequest
import KimiCli.Kosong.GoogleContents
import KimiCli.Workspace.AdditionalDirs
import KimiCli.Fs.GrepAgreement
import KimiCli.Config.SalvageLoop
import KimiCli.Tools.ParseFirstJson
import KimiCli.Skill.OnePass
