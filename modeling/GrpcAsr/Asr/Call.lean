import GrpcAsr.Library.Interaction
import GrpcAsr.Asr.DocumentFold
import GrpcAsr.Asr.Transcriber

/-!
# What the threads of one transcription call share

The upload loop, the worker and the keyframe thread meet in a byte stream, a locked
writer, two stop tokens and the joins. A request is one critical section or one call
into native code; one that waits on a condition is not served before the condition
holds. Every served request is recorded.
-/

namespace GrpcAsr.Asr

set_option autoImplicit false

open Interaction
open Media (Bytes ascii Status StatusCode)

structure ByteStream where
  bytes : Bytes
  complete : Bool
  aborted : Bool
  deriving DecidableEq

namespace ByteStream

def append (stream : ByteStream) (data : Bytes) : ByteStream :=
  { stream with bytes := stream.bytes ++ data }

/-- Up to `size` bytes from an offset, once there are any or there never will be. -/
def readAt (stream : ByteStream) (offset size : Nat) : Option Bytes :=
  if stream.aborted || stream.complete || decide (offset < stream.bytes.length) then
    some (if stream.aborted || decide (stream.bytes.length ≤ offset) then []
      else (stream.bytes.drop offset).take size)
  else none

def waitForPrefix (stream : ByteStream) (size : Nat) : Option Nat :=
  if stream.aborted || stream.complete || decide (size ≤ stream.bytes.length) then
    some (min stream.bytes.length size)
  else none

def waitComplete (stream : ByteStream) : Option Unit :=
  if stream.complete || stream.aborted then some () else none

end ByteStream

/-- The writer the threads share, with the events that went through to the client. -/
structure LockedWriter where
  fold : Option AsrDocumentFold
  dead : Bool
  sent : List TranscribeResponse

namespace LockedWriter

variable (parse : Bytes → Option Nat)

/-- One event under the lock; `written` is what the stream's `Write` returns. -/
def writeLocked (writer : LockedWriter) (written : Bool) (response : TranscribeResponse) :
    Bool × LockedWriter :=
  let writer := { writer with fold := writer.fold.map fun fold => fold.consume parse response }
  if writer.dead then (false, writer)
  else if written then (true, { writer with sent := writer.sent ++ [response] })
  else (false, { writer with dead := true })

def setSource (writer : LockedWriter) (origin : DocumentOrigin) : LockedWriter :=
  { writer with fold := writer.fold.map fun fold => fold.setSource origin }

/-- The Document event, when there is a fold, and the trailer after it. -/
def finish (writer : LockedWriter) (documentWritten trailerWritten : Bool)
    (trailer : TranscriptComplete) : Bool × LockedWriter :=
  match writer.fold with
  | none => writer.writeLocked parse trailerWritten (.complete trailer)
  | some fold =>
    let document := (fold.consume parse (.complete trailer)).document
    let (sent, writer) :=
      { writer with fold := none }.writeLocked parse documentWritten (.document document)
    if sent then writer.writeLocked parse trailerWritten (.complete trailer) else (false, writer)

end LockedWriter

/-- FNV-1a over 64 bits. -/
def contentHash (bytes : Bytes) : UInt64 :=
  bytes.foldl (fun hash byte => (hash ^^^ byte.toUInt64) * 1099511628211) 14695981039346656037

inductive MediaFamily
  | unknown | wav | mp3 | flac | ogg | mp4 | mkv
  deriving DecidableEq

namespace MediaFamily

def decodesInProcess : MediaFamily → Bool
  | .wav | .mp3 | .flac => true
  | _ => false

def name : MediaFamily → String
  | .wav => "wav"
  | .mp3 => "mp3"
  | .flac => "flac"
  | .ogg => "ogg"
  | .mp4 => "mp4"
  | .mkv => "mkv"
  | .unknown => "unknown"

def mimetype : MediaFamily → String
  | .wav => "audio/wav"
  | .mp3 => "audio/mpeg"
  | .flac => "audio/flac"
  | .ogg => "audio/ogg"
  | .mp4 => "video/mp4"
  | .mkv => "video/x-matroska"
  | .unknown => "application/octet-stream"

end MediaFamily

def startsWith (data : Bytes) (magic : String) (offset : Nat) : Bool :=
  (ascii magic).isPrefixOf (data.drop offset)

/-- The first byte after the sync run of a bare MPEG audio frame. -/
def isMpegFrame (second : UInt8) : Bool :=
  second &&& 0xE0 == 0xE0 && second &&& 0x18 != 0x08 && second &&& 0x06 != 0

def sniff (data : Bytes) : MediaFamily :=
  if data.length < 4 then .unknown
  else if startsWith data "RIFF" 0 && startsWith data "WAVE" 8 then .wav
  else if startsWith data "fLaC" 0 then .flac
  else if startsWith data "OggS" 0 then .ogg
  else if startsWith data "ftyp" 4 then .mp4
  else if [0x1A, 0x45, 0xDF, 0xA3].isPrefixOf data then .mkv
  else if startsWith data "ID3" 0 then .mp3
  else if data.head? == some 0xFF && data[1]?.any isMpegFrame then .mp3
  else .unknown

/-- The basename the client gave, or one derived from the container. -/
def sourceFilename (requested : Bytes) (family : MediaFamily) : Bytes :=
  if requested.isEmpty then ascii ("media." ++ family.name)
  else (requested.reverse.takeWhile (· != 47)).reverse

structure DecoderInfo where
  durationMs : UInt64
  sampleRateHz : UInt32
  channels : UInt32

structure ProbeInfo where
  hasAudio : Bool
  durationMs : UInt64
  audioCodec : Bytes
  sampleRateHz : UInt32
  channels : UInt32
  hasVideo : Bool
  videoCodec : Bytes

/-- Samples of the in-process decoder, and whether the encoded audio ended. -/
structure Pcm where
  samples : List Sample
  atEnd : Bool

/-- Calls that may throw into the decoder, the demuxer and the model pool. -/
inductive Tool
  | openDecoder (headerDeclaresDuration : Bool)
  | decode (maxSamples : Nat)
  | acquire (model : Bytes)
  | openDemux (bytes : Bytes)
  | probe
  | openAudio
  | readAudio (maxSamples : Nat)
  | cancelAudio
  | closeAudio

abbrev Tool.Result : Tool → Type
  | .openDecoder _ => DecoderInfo
  | .decode _ => Pcm
  | .probe => ProbeInfo
  | .readAudio _ => List Sample
  | .acquire _ | .openDemux _ | .openAudio | .cancelAudio | .closeAudio => Unit

/-- The decoder gave fewer samples than asked and the audio had not ended. -/
def Tool.cutShort : (tool : Tool) → Except Thrown tool.Result → Bool
  | .decode maxSamples, .ok pcm => !(decide (maxSamples ≤ pcm.samples.length) || pcm.atEnd)
  | _, _ => false

/-- Which check of the stop token polls it: the transcription's, or `gone`. -/
inductive Poll
  | run
  | gone
  deriving DecidableEq

inductive Request
  | tool (call : Tool)
  | whisper (buffer : List Sample)
  | waitForPrefix (size : Nat)
  | readAt (offset size : Nat)
  | waitComplete
  | isComplete
  | isAborted
  | uploadSize
  | completedBytes
  | append (data : Bytes)
  | complete
  | abort
  | stopRequested (poll : Poll)
  | requestStop
  | isCancelled
  | write (response : TranscribeResponse)
  | folding
  | setSource (origin : DocumentOrigin)
  | finish (trailer : TranscriptComplete)
  | addAudioMs (duration : UInt64)
  | spawnKeyframes (interval : UInt32)
  | forwardStop
  | stopKeyframes
  | joinKeyframes
  | keyframeError
  | keyframeCount
  | awaitSpawn
  | keyframeStopRequested
  | countKeyframe
  | exitKeyframes (error : Option Thrown)
  | exitWorker (status : Status)
  | watchWorker
  | joinWorker
  | forever

abbrev Request.Answer : Request → Type
  | .tool call => Except Thrown call.Result
  | .whisper _ => Whisper
  | .waitForPrefix _ => Nat
  | .readAt _ _ => Bytes
  | .isComplete | .isAborted | .stopRequested _ | .isCancelled | .write _ | .folding
  | .finish _ | .keyframeStopRequested | .watchWorker => Bool
  | .uploadSize => Nat
  | .completedBytes => Bytes
  | .keyframeError => Option Thrown
  | .keyframeCount => UInt32
  | .awaitSpawn => UInt32
  | .joinWorker => Status
  | .forever => Empty
  | .waitComplete | .append _ | .complete | .abort | .requestStop | .setSource _ | .addAudioMs _
  | .spawnKeyframes _ | .forwardStop | .stopKeyframes | .joinKeyframes | .countKeyframe
  | .exitKeyframes _ | .exitWorker _ => Unit

/-- A served request, with the thread that made it. -/
structure Served where
  index : Nat
  request : Request
  answer : request.Answer

/-- What the keyframe thread shares with the worker. -/
structure Stills where
  interval : Option UInt32
  stop : Bool
  count : UInt32
  error : Option Thrown
  exited : Bool

structure CallState where
  upload : ByteStream
  writer : LockedWriter
  stop : Bool
  forwarding : Bool
  stills : Stills
  audioMs : UInt64
  workerStatus : Option Status
  trace : List Served

/-- What the surroundings decide at the moment of a request. -/
structure Moment where
  written : Bool
  trailerWritten : Bool
  cancelled : Bool
  tool : (tool : Tool) → Except Thrown tool.Result
  whisper : List Sample → Whisper

namespace CallState

variable (parse : Bytes → Option Nat) (moment : Moment) (s : CallState)

def keyframesStopped : Bool := s.stills.stop || (s.forwarding && s.stop)

/-- The effect of a request, if it can be served. The decoder is short of samples only at
the end of the audio or of an aborted upload. -/
def act : (request : Request) → Option (request.Answer × CallState)
  | .tool tool =>
    if tool.cutShort (moment.tool tool) && !s.upload.aborted then none
    else some (moment.tool tool, s)
  | .whisper buffer => some (moment.whisper buffer, s)
  | .waitForPrefix size => (s.upload.waitForPrefix size).map fun available => (available, s)
  | .readAt offset size => (s.upload.readAt offset size).map fun data => (data, s)
  | .waitComplete => s.upload.waitComplete.map fun _ => ((), s)
  | .isComplete => some (s.upload.complete, s)
  | .isAborted => some (s.upload.aborted, s)
  | .uploadSize => some (s.upload.bytes.length, s)
  | .completedBytes => some (s.upload.bytes, s)
  | .append data => some ((), { s with upload := s.upload.append data })
  | .complete => some ((), { s with upload := { s.upload with complete := true } })
  | .abort => some ((), { s with upload := { s.upload with aborted := true } })
  | .stopRequested _ => some (s.stop, s)
  | .requestStop => some ((), { s with stop := true })
  | .isCancelled => some (moment.cancelled, s)
  | .write response =>
    let (sent, writer) := s.writer.writeLocked parse moment.written response
    some (sent, { s with writer := writer })
  | .folding => some (s.writer.fold.isSome, s)
  | .setSource origin => some ((), { s with writer := s.writer.setSource origin })
  | .finish trailer =>
    let (sent, writer) := s.writer.finish parse moment.written moment.trailerWritten trailer
    some (sent, { s with writer := writer })
  | .addAudioMs duration => some ((), { s with audioMs := s.audioMs + duration })
  | .spawnKeyframes interval =>
    some ((), { s with stills := { s.stills with interval := some interval } })
  | .forwardStop => some ((), { s with forwarding := true })
  | .stopKeyframes => some ((), { s with stills := { s.stills with stop := true } })
  | .joinKeyframes =>
    if s.stills.interval.isSome && !s.stills.exited then none else some ((), s)
  | .keyframeError => some (s.stills.error, s)
  | .keyframeCount => some (s.stills.count, s)
  | .awaitSpawn => s.stills.interval.map fun interval => (interval, s)
  | .keyframeStopRequested => some (s.keyframesStopped, s)
  | .countKeyframe => some ((), { s with stills := { s.stills with count := s.stills.count + 1 } })
  | .exitKeyframes error =>
    some ((), { s with stills := { s.stills with error := error, exited := true } })
  | .exitWorker status => some ((), { s with workerStatus := some status })
  | .watchWorker =>
    if s.workerStatus.isSome then some (false, s)
    else if moment.cancelled then some (true, s)
    else none
  | .joinWorker => s.workerStatus.map fun status => (status, s)
  | .forever => none

def serve (index : Nat) (request : Request) : Option (request.Answer × CallState) :=
  (s.act parse moment request).map fun served =>
    (served.1, { served.2 with trace := s.trace ++ [⟨index, request, served.1⟩] })

end CallState

def callMachine (parse : Bytes → Option Nat) : Machine CallState Request Request.Answer Moment where
  serve s index moment request := s.serve parse moment index request

end GrpcAsr.Asr
