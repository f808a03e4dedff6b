import GrpcAsr.Asr.Call

/-!
# The threads of a transcription call

`process_stream` runs on the worker, the upload loop of `Transcribe` on the RPC thread and
the extraction of stills on a thread of its own. The client's messages after the options
and what the extraction finds come with the call.
-/

namespace GrpcAsr.Asr

set_option autoImplicit false

open Interaction
open Media (Bytes ascii Status StatusCode)

structure Config where
  threads : Nat
  windowSeconds : Nat
  maxDurationSeconds : Nat
  queueTimeoutSeconds : Nat
  keyframeIntervalSeconds : UInt32
  maxMediaBytes : Nat
  documentWordProvenance : Bool
  version : Bytes

structure TranscribeOptions where
  model : Bytes
  language : Bytes
  translate : Bool
  wordTimestamps : Bool
  emitKeyframes : Bool
  keyframeIntervalSeconds : UInt32
  emitDocument : Bool
  diarize : Bool
  filename : Bytes

/-- A message that follows the options. -/
inductive UploadMessage
  | chunk (data : Bytes)
  | notChunk
  deriving DecidableEq

/-- The stills the extraction hands to its sink; it goes on as long as the sink accepts
them, and may fail. -/
inductive Extraction
  | done
  | throw (error : Thrown)
  | frame (frame : Keyframe) (next : Bool → Extraction)

inductive Tally
  | transcribed
  | rejected
  | failed
  deriving DecidableEq

/-- How the RPC ends. -/
structure Verdict where
  status : Status
  tally : Tally

abbrev Task := Routine Request Request.Answer Unit Thrown

def ask (request : Request) : Task request.Answer := Routine.perform request

abbrev CallProgram := Program Request Request.Answer (Option Verdict)

def fillSegment (source : EngineSegment) : Segment where
  index := source.index
  startMs := source.startMs
  endMs := source.endMs
  text := source.text
  words := source.words
  avgLogprob := if source.tokenCount = 0 then none else some source.avgLogprob
  speakerTurnNext := source.speakerTurnNext
  speakerId := source.speaker

namespace Task

/-- A call that may throw. -/
def use (tool : Tool) : Task tool.Result := do
  let answer ← ask (.tool tool)
  Routine.liftExcept answer

def decode (maxSamples : Nat) : Task (List Sample) := do
  let pcm ← use (.decode maxSamples)
  return pcm.samples

def wait {α : Type} : Task α := fun _ => .perform .forever Empty.elim

/-- The surroundings of a transcription run with the given PCM source. -/
def host (read : Nat → Task (List Sample)) : Host Task where
  read := read
  sink segment isFinal :=
    ask (.write
      (if isFinal then .finalSegment (fillSegment segment)
      else .partialSegment (fillSegment segment)))
  stopRequested := ask (.stopRequested .run)
  whisper _ buffer := ask (.whisper buffer)
  throw := Routine.throw
  wait := wait

/-- A failure that follows a stop is the stop's doing. -/
def gone : Task Bool := do
  let aborted ← ask .isAborted
  if aborted then return true else ask (.stopRequested .gone)

end Task

def cancelledStatus : Status := ⟨.cancelled, "the stream went away mid-transcription"⟩

section Worker

variable (config : Config) (options : TranscribeOptions) (rounds : Nat)

def engineOptions : EngineOptions where
  language := options.language
  translate := options.translate
  wordTimestamps := options.wordTimestamps
  diarize := options.diarize
  threads := config.threads
  windowSeconds := config.windowSeconds
  maxDurationSeconds := config.maxDurationSeconds

def maxDurationMs : UInt64 := UInt64.ofNat config.maxDurationSeconds * 1000

def tooLong : Status :=
  ⟨.resourceExhausted, "media duration exceeds GRPC_ASR_MAX_DURATION_SECONDS=" ++
    toString config.maxDurationSeconds⟩

def transcribeFrom (read : Nat → Task (List Sample)) : Task EngineResult :=
  Transcriber.run (Task.host read) (engineOptions config options) rounds

/-- Names the folded Document, if there is one. -/
def nameSource (family : MediaFamily) : Task Unit := do
  let folding ← ask .folding
  if folding then
    let complete ← ask .isComplete
    if complete then
      let bytes ← ask .completedBytes
      ask (.setSource
        ⟨sourceFilename options.filename family, ascii family.mimetype, contentHash bytes⟩)
    else
      ask (.setSource
        ⟨sourceFilename options.filename family, ascii family.mimetype, 0⟩)
  else return ()

def trailerOf (result : EngineResult) (keyframes : UInt32) : TranscriptComplete :=
  ⟨result.language, result.durationMs, result.finalSegments, result.tokens, keyframes⟩

def goneAfter (result : EngineResult) : Task Bool :=
  if result.aborted then return true else Task.gone

/-- The end of the pipeline: the trailer, and the Document before it. -/
def conclude (family : MediaFamily) (result : EngineResult) : Task Status := do
  let gone ← goneAfter result
  if gone then return cancelledStatus
  else
    nameSource options family
    let keyframes ← ask .keyframeCount
    let finished ← ask (.finish (trailerOf result keyframes))
    if finished then
      ask (.addAudioMs result.durationMs)
      return Status.OK
    else return cancelledStatus

/-- The live path: the decoder pulls from the growing upload. -/
def decodeInProcess (family : MediaFamily) : Task Status := do
  let info ← Task.use (.openDecoder (decide (family = .wav)))
  if maxDurationMs config < info.durationMs then return tooLong config
  else
    let written ← ask (.write (.mediaInfo
      ⟨info.durationMs, ascii family.name, info.sampleRateHz, info.channels, false, []⟩))
    if written then
      Task.use (.acquire options.model)
      let result ← transcribeFrom config options rounds Task.decode
      conclude options family result
    else return cancelledStatus

def keyframeInterval : UInt32 :=
  if options.keyframeIntervalSeconds ≠ 0 then options.keyframeIntervalSeconds
  else config.keyframeIntervalSeconds

def endAudio (result : EngineResult) : Task Unit :=
  if result.aborted then do
    Task.use .cancelAudio
    ask .stopKeyframes
  else Task.use .closeAudio

def spawnKeyframes (probe : ProbeInfo) : Task Unit :=
  if options.emitKeyframes && probe.hasVideo then
    ask (.spawnKeyframes (keyframeInterval config options))
  else return ()

/-- Transcription beside the extraction of stills, up to the join. -/
def transcribeWithStills (probe : ProbeInfo) : Task EngineResult := do
  spawnKeyframes config options probe
  ask .forwardStop
  Task.use .openAudio
  let result ← transcribeFrom config options rounds fun maxSamples => Task.use (.readAudio maxSamples)
  endAudio result
  ask .joinKeyframes
  let error ← ask .keyframeError
  match error with
  | some error => if result.aborted then return result else Routine.throw error
  | none => return result

/-- Leaving a scope by an exception stops and joins the keyframe thread. -/
def joiningStills {α : Type} (body : Task α) : Task α := do
  let result ← Routine.attempt body
  match result with
  | .ok a => return a
  | .error error => do
    ask .stopKeyframes
    ask .joinKeyframes
    Routine.throw error

/-- The path through the demuxer, once it has looked at the complete upload. -/
def transcribeProbed (family : MediaFamily) (probe : ProbeInfo) : Task Status := do
  if !probe.hasAudio then
    return ⟨.invalidArgument, "the media has no audio track to transcribe"⟩
  else if maxDurationMs config < probe.durationMs then return tooLong config
  else
    let written ← ask (.write (.mediaInfo
      ⟨probe.durationMs, probe.audioCodec, probe.sampleRateHz, probe.channels, probe.hasVideo,
        probe.videoCodec⟩))
    if written then
      Task.use (.acquire options.model)
      let result ← joiningStills (transcribeWithStills config options rounds probe)
      conclude options family result
    else return cancelledStatus

def demuxWithFfmpeg (family : MediaFamily) : Task Status := do
  ask .waitComplete
  let gone ← Task.gone
  if gone then return ⟨.cancelled, "upload aborted"⟩
  else
    let bytes ← ask .completedBytes
    Task.use (.openDemux bytes)
    let probe ← Task.use .probe
    transcribeProbed config options rounds family probe

/-- The container decides the path. -/
def routeMedia (family : MediaFamily) : Task Status :=
  if family = .unknown then
    return ⟨.unimplemented, "unrecognized media container; supported: wav, mp3, flac, ogg, " ++
      "mp4/mov, mkv/webm"⟩
  else if family.decodesInProcess then decodeInProcess config options rounds family
  else demuxWithFfmpeg config options rounds family

def processBody : Task Status := do
  let size ← ask (.waitForPrefix 16)
  let aborted ← ask .isAborted
  if aborted then return ⟨.cancelled, "upload aborted"⟩
  else
    let start ← ask (.readAt 0 size)
    routeMedia config options rounds (sniff (start ++ List.replicate (size - start.length) 0))

/-- The status of an exception; a failure after a stop is reported as the stop. -/
def handle (thrown : Thrown) : Task Status :=
  match thrown with
  | .cancelled => return cancelledStatus
  | .queueTimeout what =>
    return ⟨.resourceExhausted, what ++ " for GRPC_ASR_QUEUE_TIMEOUT_SECONDS=" ++
      toString config.queueTimeoutSeconds⟩
  | .decodeError what => do
    let gone ← Task.gone
    if gone then return ⟨.cancelled, "upload aborted mid-decode"⟩
    else return ⟨.invalidArgument, what⟩
  | .durationCapExceeded what => return ⟨.resourceExhausted, what⟩
  | .toolError what => do
    let gone ← Task.gone
    if gone then return cancelledStatus else return ⟨.internal, what⟩
  | .other what => do
    let gone ← Task.gone
    if gone then return cancelledStatus
    else return ⟨.internal, "transcription failed: " ++ what⟩

/-- `process_stream`. -/
def processStream : Task Status := do
  let result ← Routine.attempt (processBody config options rounds)
  match result with
  | .ok status => return status
  | .error thrown => handle config thrown

def workerBody : Task (Option Verdict) := do
  let status ← processStream config options rounds
  ask (.exitWorker status)
  return none

end Worker

/-- The thread's result; an exception it does not catch ends it without one. -/
def asThread (task : Task (Option Verdict)) : CallProgram :=
  (task ()).bind fun result => .done (result.1.toOption.join)

section Stills

/-- The extraction with the sink of the keyframe thread. -/
def extractKeyframes : Extraction → Task Unit
  | .done => return ()
  | .throw error => Routine.throw error
  | .frame frame next => do
    let stop ← ask .keyframeStopRequested
    if stop then extractKeyframes (next false)
    else
      let written ← ask (.write (.keyframe frame))
      if written then
        ask .countKeyframe
        extractKeyframes (next true)
      else extractKeyframes (next false)

def thrown? : Except Thrown Unit → Option Thrown
  | .ok _ => none
  | .error error => some error

def keyframeBody (extraction : UInt32 → Extraction) : Task (Option Verdict) := do
  let interval ← ask .awaitSpawn
  let result ← Routine.attempt (extractKeyframes (extraction interval))
  ask (.exitKeyframes (thrown? result))
  return none

end Stills

section Rpc

variable (config : Config)

/-- How the upload loop ends: the reader's status and whether any byte arrived. -/
structure Reading where
  status : Status
  sawBytes : Bool

def readUpload : List UploadMessage → Bool → Task Reading
  | [], sawBytes => return ⟨Status.OK, sawBytes⟩
  | .notChunk :: _, sawBytes =>
    return ⟨⟨.invalidArgument, "only media chunks may follow TranscribeOptions"⟩, sawBytes⟩
  | .chunk data :: messages, sawBytes => do
    let size ← ask .uploadSize
    if config.maxMediaBytes < size + data.length then
      return ⟨⟨.resourceExhausted, "media exceeds GRPC_ASR_MAX_MEDIA_BYTES=" ++
        toString config.maxMediaBytes⟩, sawBytes⟩
    else
      ask (.append data)
      readUpload messages (sawBytes || !data.isEmpty)

def stopUpload : Task Unit := do
  ask .requestStop
  ask .abort

def uploadFailed (reading : Reading) : Task Bool :=
  if reading.status.isOk then ask .isCancelled else return true

/-- Completes or aborts the upload; the reader's status may change. -/
def closeUpload (reading : Reading) : Task Status := do
  let failed ← uploadFailed reading
  if failed then
    stopUpload
    return reading.status
  else if !reading.sawBytes then
    stopUpload
    return ⟨.invalidArgument, "stream ended without media bytes"⟩
  else
    ask .complete
    return reading.status

def tallyOf (status : Status) : Tally :=
  match status.code with
  | .ok => .transcribed
  | .invalidArgument | .resourceExhausted | .unimplemented => .rejected
  | _ => .failed

/-- Watches the call until the worker is done; a cancelled call is stopped. -/
def watchWorker : Task Unit := do
  let cancelled ← ask .watchWorker
  if cancelled then ask .requestStop else return ()

/-- The upload loop of `Transcribe` and what follows it. -/
def rpcBody (messages : List UploadMessage) : Task (Option Verdict) := do
  let reading ← readUpload config messages false
  let readerStatus ← closeUpload reading
  watchWorker
  let workerStatus ← ask .joinWorker
  let status := if readerStatus.isOk then workerStatus else readerStatus
  return some ⟨status, tallyOf status⟩

end Rpc

/-- One transcription call: what is configured, what the client asks and uploads, and how
the extraction of stills behaves. -/
structure AsrCall where
  parse : Bytes → Option Nat
  config : Config
  options : TranscribeOptions
  messages : List UploadMessage
  extraction : UInt32 → Extraction
  rounds : Nat

namespace AsrCall

variable (call : AsrCall)

def newFold : AsrDocumentFold :=
  .create call.options.model call.config.version ⟨call.config.documentWordProvenance⟩

def start : CallState where
  upload := ⟨[], false, false⟩
  writer := ⟨if call.options.emitDocument then some call.newFold else none, false, []⟩
  stop := false
  forwarding := false
  stills := ⟨none, false, 0, none, false⟩
  audioMs := 0
  workerStatus := none
  trace := []

/-- The RPC thread, the worker and the keyframe thread. -/
def threads : List CallProgram :=
  [asThread (rpcBody call.config call.messages),
    asThread (workerBody call.config call.options call.rounds),
    asThread (keyframeBody call.extraction)]

def run (turns : List (Turn Moment Empty)) : Pool CallState Request Request.Answer (Option Verdict) :=
  (⟨call.start, call.threads⟩ : Pool _ _ _ _).run (callMachine call.parse) (fun s _ => s) turns

end AsrCall

end GrpcAsr.Asr
