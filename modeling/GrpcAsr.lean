import GrpcAsr.Library.Emitting
import GrpcAsr.Library.Dealing
import GrpcAsr.Library.History
import GrpcAsr.Library.Retention
import GrpcAsr.Library.NearTie
import GrpcAsr.Library.Interaction
import GrpcAsr.Library.Utf8
import GrpcAsr.Library.Splitting
import GrpcAsr.Library.OverlapJoin
import GrpcAsr.Library.Revisions
import GrpcAsr.Media.Basic
import GrpcAsr.Media.Uuid
import GrpcAsr.Media.Messages
import GrpcAsr.Media.Wire
import GrpcAsr.Media.Reconcile
import GrpcAsr.Media.ReconcileAnchor
import GrpcAsr.Media.AnchorScan
import GrpcAsr.Media.ReconcileSteps
import GrpcAsr.Media.Utf8
import GrpcAsr.Media.ReconcileText
import GrpcAsr.Media.ReconcileUtf8
import GrpcAsr.Media.TranscriptRevision
import GrpcAsr.Media.ReconcileRevisions
import GrpcAsr.Media.StableCutoff
import GrpcAsr.Media.FinalSegments
import GrpcAsr.Media.JoinEvidence
import GrpcAsr.Media.JoinStatus
import GrpcAsr.Media.ReconcileTimes
import GrpcAsr.Media.WordSpacing
import GrpcAsr.Media.Windowing
import GrpcAsr.Media.WindowCoverage
import GrpcAsr.Media.VoiceActivity
import GrpcAsr.Media.AudioPartition
import GrpcAsr.Media.Framing
import GrpcAsr.Media.WindowProtocol
import GrpcAsr.Media.WindowInputs
import GrpcAsr.Media.WindowBounds
import GrpcAsr.Media.PauseCuts
import GrpcAsr.Media.SpeechWorker
import GrpcAsr.Media.Pipeline
import GrpcAsr.Media.TrackAgreement
import GrpcAsr.Media.ContinuityWindows
import GrpcAsr.Media.SourceTimeline
import GrpcAsr.Media.DecodedTimeline
import GrpcAsr.Media.Subscription
import GrpcAsr.Media.Registry
import GrpcAsr.Media.RegistrySteps
import GrpcAsr.Media.SnapshotFold
import GrpcAsr.Media.EventLog
import GrpcAsr.Media.RetainedHistory
import GrpcAsr.Media.Lifecycle
import GrpcAsr.Media.SnapshotTrimming
import GrpcAsr.Media.SnapshotBudget
import GrpcAsr.Media.ResultState
import GrpcAsr.Media.Mailboxes
import GrpcAsr.Media.Isolation
import GrpcAsr.Media.Incarnations
import GrpcAsr.Media.Delivery
import GrpcAsr.Media.Service
import GrpcAsr.Media.IngressAccounting
import GrpcAsr.Media.IngressRuns
import GrpcAsr.Media.IngressFailStop
import GrpcAsr.Media.VideoDemux
import GrpcAsr.Media.Decoder
import GrpcAsr.Media.PngChunks
import GrpcAsr.Media.Keyframes
import GrpcAsr.Media.AudioReads
import GrpcAsr.Media.Http
import GrpcAsr.Media.HttpRelay
import GrpcAsr.Asr.Events
import GrpcAsr.Asr.DocumentFold
import GrpcAsr.Asr.DocumentItems
import GrpcAsr.Asr.WordSpans
import GrpcAsr.Asr.DocumentIntegrity
import GrpcAsr.Asr.Transcriber
import GrpcAsr.Asr.TranscriberRule
import GrpcAsr.Asr.Numbering
import GrpcAsr.Asr.TranscriberRuns
import GrpcAsr.Asr.Superseded
import GrpcAsr.Asr.FinalStarts
import GrpcAsr.Asr.Coverage
import GrpcAsr.Asr.Call
import GrpcAsr.Asr.Service
import GrpcAsr.Asr.CallContract
import GrpcAsr.Asr.CallThreads
import GrpcAsr.Asr.CallInvariant
import GrpcAsr.Asr.CallRuns
import GrpcAsr.Asr.CallOutcome
import GrpcAsr.Asr.RemoteOptions
import GrpcAsr.Asr.FloatText
import GrpcAsr.Asr.EndpointGrammar
import GrpcAsr.Media.AnchorTable
import GrpcAsr.Media.Utf8Encoding
import GrpcAsr.Library.Parties
import GrpcAsr.Library.Wakeups
import GrpcAsr.Asr.ModelPool
import GrpcAsr.Asr.PoolRuns
import GrpcAsr.Library.Family
import GrpcAsr.Media.WorkerStreams
import GrpcAsr.Media.WorkerRuns
import GrpcAsr.Media.SpeechTasks
import GrpcAsr.Media.Demuxer
import GrpcAsr.Media.PacketRelay
import GrpcAsr.Media.DemuxedAudio
import GrpcAsr.Media.StreamedSpeech
import GrpcAsr.Asr.AudioDecoder
import GrpcAsr.Asr.LiveDecoding
import GrpcAsr.Media.Pull
