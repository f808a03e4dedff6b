import Mathlib.Data.Rat.Defs
import GrpcAsr.Media.Basic

/-!
# Protocol messages of the media service

Field names follow `media.proto`. A message or a group of fields that no modelled
function reads is kept as its serialized bytes (`wire`, `rest`), so that message sizes
stay those of the protocol. Float values that enter arithmetic are exact rationals.
-/

namespace GrpcAsr.Media

set_option autoImplicit false

def ascii (text : String) : Bytes := text.toList.map fun c => UInt8.ofNat c.toNat

structure Cursor where
  serverEpoch : Bytes
  streamId : Bytes
  eventSequence : Nat
  streamIncarnation : Bytes
  deriving DecidableEq, Inhabited

structure Producer where
  machineId : Bytes
  service : Bytes
  appVersion : Bytes
  buildId : Bytes
  libraryVersion : Bytes
  executionBackend : Bytes
  modelId : Bytes
  modelSha256 : Bytes
  configurationSha256 : Bytes
  deriving DecidableEq, Inhabited

structure Timestamp where
  seconds : Int
  nanos : Int
  deriving DecidableEq, Inhabited

structure DirectSource where
  name : Bytes
  mediaType : Bytes
  deriving DecidableEq, Inhabited

structure HttpSource where
  url : Bytes
  credentialProfile : Bytes
  deriving DecidableEq, Inhabited

inductive Source
  | direct (source : DirectSource)
  | http (source : HttpSource)
  deriving DecidableEq

inductive SpeechTask
  | unspecified | transcribe | translateToEnglish
  | unrecognized (value : Int)
  deriving DecidableEq, Inhabited

inductive ChunkingStrategy
  | unspecified | fixed | speechAware
  | unrecognized (value : Int)
  deriving DecidableEq, Inhabited

inductive NoPausePolicy
  | unspecified | splitWithOverlap | fail
  | unrecognized (value : Int)
  deriving DecidableEq, Inhabited

structure SpeechBoundaryOptions where
  vadModelId : Bytes
  minPauseMs : Nat
  speechPaddingMs : Nat
  maxWindowMs : Nat
  noPausePolicy : NoPausePolicy
  deriving DecidableEq, Inhabited

structure SpeechWindowing where
  windowMs : Option Nat
  overlapMs : Option Nat
  strategy : ChunkingStrategy
  speechBoundary : Option SpeechBoundaryOptions
  deriving DecidableEq, Inhabited

structure SpeechOptions where
  modelId : Bytes
  language : Bytes
  task : SpeechTask
  wordTimestamps : Bool
  windowing : Option SpeechWindowing
  reconcileTranscript : Option Bool
  deriving DecidableEq, Inhabited

structure DecodeOptions where
  emitAudio : Bool
  emitPackets : Bool
  audioTrackIds : List Nat
  deriving DecidableEq, Inhabited

structure OpenStream where
  streamId : Bytes
  source : Option Source
  speech : List SpeechOptions
  decode : Option DecodeOptions
  deriving DecidableEq, Inhabited

structure SourceChunk where
  chunkNumber : Nat
  byteOffset : Nat
  data : Bytes
  sha256 : Bytes
  deriving DecidableEq, Inhabited

structure FinishStream where
  chunkCount : Nat
  byteCount : Nat
  sha256 : Bytes
  deriving DecidableEq, Inhabited

structure StreamOpened where
  source : DirectSource
  maxChunkBytes : Nat
  retentionBytes : Nat
  speech : List SpeechOptions
  decode : Option DecodeOptions
  deriving DecidableEq, Inhabited

structure StreamClosed where
  statusCode : Nat
  message : String
  sourceChunkCount : Nat
  sourceByteCount : Nat
  sourceSha256 : Bytes
  deriving DecidableEq, Inhabited

structure AudioChunk where
  chunkNumber : Nat
  trackId : Nat
  firstSample : Nat
  sampleRate : Nat
  channels : Nat
  pcmF32le : Bytes
  presentationTimeUs : Option Int
  discontinuity : Bool
  deriving DecidableEq, Inhabited

structure MediaInfo where
  wire : Bytes
  deriving DecidableEq, Inhabited

structure EncodedPacket where
  wire : Bytes
  deriving DecidableEq, Inhabited

structure HttpResponseInfo where
  origin : Bytes
  statusCode : Nat
  deriving DecidableEq, Inhabited

inductive ReconciliationStatus
  | unspecified | direct | aligned | unresolved | pending
  deriving DecidableEq, Inhabited

inductive SpeechTokenKind
  | unspecified | text | control
  | unrecognized (value : Int)
  deriving DecidableEq, Inhabited

structure WhisperTokenMetadata where
  logProbability : ℚ
  rest : Bytes
  deriving DecidableEq, Inhabited

structure ParakeetTokenMetadata where
  isWordStart : Bool
  rest : Bytes
  deriving DecidableEq, Inhabited

structure SpeechToken where
  text : Bytes
  startUs : Option Int
  endUs : Option Int
  kind : SpeechTokenKind
  whisper : Option WhisperTokenMetadata
  renderedText : Option Bytes
  parakeet : Option ParakeetTokenMetadata
  rest : Bytes
  deriving DecidableEq, Inhabited

structure TranscriptSegment where
  segmentId : Bytes
  revision : Nat
  final : Bool
  trackId : Nat
  startUs : Int
  endUs : Int
  text : Bytes
  sourceLanguage : Bytes
  outputLanguage : Bytes
  task : SpeechTask
  averageLogProbability : Option ℚ
  tokens : List SpeechToken
  reconciliation : ReconciliationStatus
  producer : Option Producer
  contributors : List Producer
  deriving DecidableEq, Inhabited

/-- `boundary` is the wire value of the enumeration, which the worker range-checks. -/
structure SpeechHypothesis where
  windowNumber : Nat
  trackId : Nat
  segments : List TranscriptSegment
  firstSample : Nat
  firstNewSample : Nat
  sampleCount : Nat
  boundary : Int
  producer : Option Producer
  contributors : List Producer
  presentationTimeUs : Option Int
  encoderContext : Option Bytes
  deriving DecidableEq, Inhabited

inductive Payload
  | opened (opened : StreamOpened)
  | source (chunk : SourceChunk)
  | audio (chunk : AudioChunk)
  | transcript (segment : TranscriptSegment)
  | closed (closed : StreamClosed)
  | mediaInfo (info : MediaInfo)
  | packet (packet : EncodedPacket)
  | hypothesis (hypothesis : SpeechHypothesis)
  | httpInfo (info : HttpResponseInfo)
  deriving DecidableEq

structure StreamEvent where
  cursor : Cursor
  producer : Option Producer
  emittedAt : Timestamp
  payload : Option Payload
  deriving DecidableEq, Inhabited

structure StreamSnapshot where
  through : Cursor
  firstRetainedSequence : Nat
  opened : Option StreamOpened
  closed : Option StreamClosed
  producers : List Producer
  transcripts : List TranscriptSegment
  resultStateTruncated : Bool
  mediaInfo : Option MediaInfo
  hypotheses : List SpeechHypothesis
  httpInfo : Option HttpResponseInfo
  deriving DecidableEq, Inhabited

structure Hydration where
  metadata : Bool
  retainedEvents : Bool
  after : List Cursor
  deriving DecidableEq, Inhabited

/-- `payloadKinds` are the wire values, which `subscribe` range-checks. -/
structure SubscribeRequest where
  streamIds : List Bytes
  hydration : Hydration
  payloadKinds : List Int
  deriving DecidableEq, Inhabited

inductive SubscribeResponse
  | snapshotBegin (snapshotId : Bytes) (through : List Cursor)
  | snapshot (snapshot : StreamSnapshot)
  | event (event : StreamEvent)
  | snapshotEnd (snapshotId : Bytes)
  deriving DecidableEq

inductive IngestRequest
  | open (request : OpenStream)
  | chunk (chunk : SourceChunk)
  | finish (finish : FinishStream)
  | notSet
  deriving DecidableEq

namespace StreamEvent

def opened? (event : StreamEvent) : Option StreamOpened :=
  match event.payload with
  | some (.opened opened) => some opened
  | _ => none

def source? (event : StreamEvent) : Option SourceChunk :=
  match event.payload with
  | some (.source chunk) => some chunk
  | _ => none

def transcript? (event : StreamEvent) : Option TranscriptSegment :=
  match event.payload with
  | some (.transcript segment) => some segment
  | _ => none

def closed? (event : StreamEvent) : Option StreamClosed :=
  match event.payload with
  | some (.closed closed) => some closed
  | _ => none

def mediaInfo? (event : StreamEvent) : Option MediaInfo :=
  match event.payload with
  | some (.mediaInfo info) => some info
  | _ => none

def hypothesis? (event : StreamEvent) : Option SpeechHypothesis :=
  match event.payload with
  | some (.hypothesis hypothesis) => some hypothesis
  | _ => none

def httpInfo? (event : StreamEvent) : Option HttpResponseInfo :=
  match event.payload with
  | some (.httpInfo info) => some info
  | _ => none

end StreamEvent

end GrpcAsr.Media
