import NeuralHub.Adapters.AnthropicAgreement
import NeuralHub.Adapters.OpenAIAgreement
import NeuralHub.Adapters.ProviderConsistency
import NeuralHub.Adapters.ResilientTheorems
import NeuralHub.AgentLoop.CallLimit
import NeuralHub.AgentLoop.ConcurrentAppends
import NeuralHub.AgentLoop.MessageHistory
import NeuralHub.AgentLoop.PendingMessages
import NeuralHub.AgentLoop.RepeatedFailures
import NeuralHub.AgentLoop.SignedResults
import NeuralHub.AgentLoop.ToolPairing
import NeuralHub.Compression.ArtifactPages
import NeuralHub.Compression.Level2Theorems
import NeuralHub.Feishu.ChatSessionTheorems
import NeuralHub.Feishu.PlanCardsTheorems
import NeuralHub.Feishu.UploadBatchTheorems
import NeuralHub.FileEdit.LineNumbers
import NeuralHub.FileEdit.LineRange
import NeuralHub.FileEdit.StrReplace
import NeuralHub.Gate.Replay
import NeuralHub.Hooks.Cooldown
import NeuralHub.Hooks.PendingPushes
import NeuralHub.Hooks.UnseenCount
import NeuralHub.Hooks.UserActions
import NeuralHub.Knowledge.ChunkerTheorems
import NeuralHub.Knowledge.IngestTheorems
import NeuralHub.LogSearch.FileSource
import NeuralHub.LogSearch.Redaction
import NeuralHub.Mcp.BridgedTools
import NeuralHub.Plan.CheckpointCleanup
import NeuralHub.Plan.CheckpointResume
import NeuralHub.Plan.Control
import NeuralHub.Plan.DependencyOrder
import NeuralHub.Plan.EarlierRuns
import NeuralHub.Plan.EveryStep
import NeuralHub.Plan.ParseTotal
import NeuralHub.Plan.PreviousResults
import NeuralHub.Plan.StepsSettled
import NeuralHub.Plan.StopSignal
import NeuralHub.Plan.TodoUpdateRuns
import NeuralHub.Proxies.ChainSchedulerTheorems
import NeuralHub.Proxies.ConfigFile
import NeuralHub.Proxies.CustomNodes
import NeuralHub.Proxies.CustomNodesRuns
import NeuralHub.Proxies.OverlayRuns
import NeuralHub.Readonly.Joined
import NeuralHub.Readonly.Nested
import NeuralHub.Scheduler.Occurrences
import NeuralHub.Sessions.Reload
import NeuralHub.SubAgents.OrchestratorTheorems
import NeuralHub.SubAgents.SpawnDagTheorems
import NeuralHub.SubAgents.StaticDagTheorems
import NeuralHub.SubAgents.TranscriptStoreTheorems
import NeuralHub.TaskQueue.Agreement
import NeuralHub.TaskQueue.CapacitySubmitTheorems
import NeuralHub.TaskQueue.Finality
import NeuralHub.TaskQueue.LeaseSafety
import NeuralHub.TaskQueue.PendingQueued
import NeuralHub.TaskQueue.Retries
import NeuralHub.TaskQueue.WaitTimeout
import NeuralHub.WebSocket.OneRun
import NeuralHub.XBudget.GatesTheorems
import NeuralHub.XMonitor.Alerts
