import PieAgent.Soundness.AbandonedEntries
import PieAgent.Soundness.AbortedCycles
import PieAgent.Soundness.AnthropicChunks
import PieAgent.Soundness.ApprovalSurface
import PieAgent.Soundness.ApprovalTargets
import PieAgent.Soundness.ArchiveAcceptance
import PieAgent.Soundness.ArchiveImports
import PieAgent.Soundness.BatchEdits
import PieAgent.Soundness.BoundedRetry
import PieAgent.Soundness.CanonicalArguments
import PieAgent.Soundness.ColumnSlices
import PieAgent.Soundness.CompactionPartition
import PieAgent.Soundness.CompactionRequests
import PieAgent.Soundness.CompletionsRequests
import PieAgent.Soundness.ConcurrentAppends
import PieAgent.Soundness.ConservedInput
import PieAgent.Soundness.CrashRecovery
import PieAgent.Soundness.CronEnablement
import PieAgent.Soundness.CronGrammar
import PieAgent.Soundness.CronMarkers
import PieAgent.Soundness.CronOverlap
import PieAgent.Soundness.CronWindows
import PieAgent.Soundness.DeliveredResponses
import PieAgent.Soundness.DiscoveredSession
import PieAgent.Soundness.EditBytes
import PieAgent.Soundness.EventStream
import PieAgent.Soundness.FailedWrites
import PieAgent.Soundness.FeedRows
import PieAgent.Soundness.FileMutations
import PieAgent.Soundness.FileTracking
import PieAgent.Soundness.FireOnceRules
import PieAgent.Soundness.ForkedSessions
import PieAgent.Soundness.GoalCommands
import PieAgent.Soundness.KeptSuffix
import PieAgent.Soundness.LoadedLines
import PieAgent.Soundness.LspFrames
import PieAgent.Soundness.McpEvents
import PieAgent.Soundness.McpRequests
import PieAgent.Soundness.NotificationKeys
import PieAgent.Soundness.PagedReads
import PieAgent.Soundness.PasteMarkers
import PieAgent.Soundness.PreviousSummary
import PieAgent.Soundness.PromotionStatus
import PieAgent.Soundness.PromptHistory
import PieAgent.Soundness.QueueDisplay
import PieAgent.Soundness.RelayRevocation
import PieAgent.Soundness.RelayTrust
import PieAgent.Soundness.RepairedJson
import PieAgent.Soundness.RetriedPrompts
import PieAgent.Soundness.RunningTriggers
import PieAgent.Soundness.ScreenRendering
import PieAgent.Soundness.Select
import PieAgent.Soundness.SessionIds
import PieAgent.Soundness.SessionLookup
import PieAgent.Soundness.SessionTrees
import PieAgent.Soundness.SettingsWrites
import PieAgent.Soundness.ShellPlacement
import PieAgent.Soundness.SplitTurns
import PieAgent.Soundness.StorageReplay
import PieAgent.Soundness.StreamDelivery
import PieAgent.Soundness.StreamedCalls
import PieAgent.Soundness.SubAgentReports
import PieAgent.Soundness.TagBlocks
import PieAgent.Soundness.TarReading
import PieAgent.Soundness.TemplateArguments
import PieAgent.Soundness.ToolArguments
import PieAgent.Soundness.ToolResults
import PieAgent.Soundness.TriggerCycles
import PieAgent.Soundness.TriggerDedup
import PieAgent.Soundness.TriggerPump
import PieAgent.Soundness.TruncatedAnswers
import PieAgent.Soundness.TruncatedOutput
import PieAgent.Soundness.TruncatedTexts
import PieAgent.Soundness.WrappedLines
