import Cognis.Client.Authority
import Cognis.Client.Replay
import Cognis.Client.NoHang
import Cognis.Client.Deletion
import Cognis.Client.Streaming
import Cognis.Timeline.HandoffOrder
import Cognis.JsonStream.Merge
import Cognis.Truncation.Middle
import Cognis.CircuitBreaker.Probing
import Cognis.GateConditions.Evaluators
import Cognis.SignalFormatting.Markers
import Cognis.AnchoredOutput.Anchors
import Cognis.UnaryDedup.OneOwner
import Cognis.Speech.Fences
import Cognis.Paging.Composite
import Cognis.Paging.SyncCoverage
import Cognis.DirectTurn.Cancel
import Cognis.DirectTurn.Journal
import Cognis.DirectTurn.NoBlindRetry
import Cognis.Context.Frame
import Cognis.Schedule.Cap
import Cognis.Schedule.CatchupBudget
import Cognis.Tasks.Acyclic
import Cognis.Tasks.Resolution
import Cognis.WorkflowEngine.Arrivals
import Cognis.WorkflowEngine.Restart
import Cognis.Memory.Snapshot
import Cognis.ToolOutput.SpoolPaging
import Cognis.ToolOutput.Store
import Cognis.Deliverables.Linear
import Cognis.Tasks.Cancellation
import Cognis.ToolSettlement.Canonical
import Cognis.Channels.Retry
import Cognis.ClusterSignals.Dedup
import Cognis.RuntimeRelay.NoRevival
import Cognis.RuntimeRelay.QueueKeeps
import Cognis.RuntimeRelay.AuthoritySource
import Cognis.SessionCache.SameHistory
import Cognis.ToolClassification.Settles
import Cognis.BackgroundShell.Reader
import Cognis.Compaction.Continuation
import Cognis.Compaction.Banding
import Cognis.Documents.Isolation
import Cognis.Documents.Lineages
import Cognis.Documents.TwoPass
import Cognis.JsonUtils.Objects
import Cognis.RichMarkdown.Keeping
import Cognis.PromptBudget.Budget
import Cognis.HistoryReplay.Notices
import Cognis.LocalModelFit.Planner
import Cognis.FileEdit.Matching
import Cognis.FileSearch.Grep
