import SglangOmni.Coordinator.Reuse
import SglangOmni.Coordinator.Backlog
import SglangOmni.Coordinator.Terminal
import SglangOmni.Session.Budget
import SglangOmni.Session.OutputOrder
import SglangOmni.Relay.CudaIpc
import SglangOmni.Comm.Failures
import SglangOmni.Comm.Waiting
import SglangOmni.Comm.KvSend
import SglangOmni.Comm.KvReceive
import SglangOmni.Omni.InboxOrder
import SglangOmni.Omni.Visible
import SglangOmni.History.Applied
import SglangOmni.Decode.Kept
import SglangOmni.Router.Recency
import SglangOmni.Router.Serve
import SglangOmni.Route.Order
import SglangOmni.Realtime.Commits
import SglangOmni.Realtime.Receipts
import SglangOmni.Realtime.Images
import SglangOmni.Realtime.Bridge
import SglangOmni.Transcription.Results
import SglangOmni.Transcription.Chunking
import SglangOmni.Config.Replicas
import SglangOmni.Config.Route
import SglangOmni.Cascade.Reports
import SglangOmni.Payload.State
import SglangOmni.StageRoutes.Pool
import SglangOmni.Router.ContentType
import SglangOmni.Umm.Completion
import SglangOmni.StageIo.Restore
import SglangOmni.StageIo.Packing
import SglangOmni.StageIo.Metadata
import SglangOmni.Stage.Input
import SglangOmni.Proto.Order
import SglangOmni.Proto.Fragmenting
import SglangOmni.Comm.Duplicates
import SglangOmni.Session.Lead
import SglangOmni.Session.Settled
import SglangOmni.Relay.Waiters
import SglangOmni.History.Raised
import SglangOmni.Audio.SemanticVad
import SglangOmni.Audio.Utterances
import SglangOmni.AudioStream.Windows
import SglangOmni.Spoken.Prefix
import SglangOmni.Reference.Serves
import SglangOmni.Router.BatchSupports
import SglangOmni.Turns.Truncated
import SglangOmni.Radix.Evict
import SglangOmni.Negotiation.Admission
import SglangOmni.Simple.Scheduler
import SglangOmni.Simple.Streaming
import SglangOmni.Detokenizer.Scheduler
import SglangOmni.Client.StopStrings
import SglangOmni.Detokenizer.TextStreaming
import SglangOmni.PreLm.Encoder
import SglangOmni.StageRoutes.Templates
import SglangOmni.Transcription.ChunkTasks
import SglangOmni.Cascade.Prompts
import SglangOmni.Cascade.HistoryBudget
import SglangOmni.Cascade.SpanDeltas
import SglangOmni.Code2Wav.SerialWindows
import SglangOmni.DotsTts.Serving
