import GrpcAsr.Media.Messages

/-!
# Serialized message sizes

`ByteSizeLong` of the generated protocol code: a varint takes one byte for each seven
bits, a field is its tag and value, absent and default fields take nothing.
-/

namespace GrpcAsr.Media

set_option autoImplicit false

namespace Wire

def varint (n : Nat) : Nat := Nat.log2 n / 7 + 1

def signed (n : Int) : Nat := if n < 0 then 10 else varint n.toNat

def tag (field : Nat) : Nat := if field < 16 then 1 else 2

def uint (field n : Nat) : Nat := if n = 0 then 0 else tag field + varint n

def int (field : Nat) (n : Int) : Nat := if n = 0 then 0 else tag field + signed n

def flag (field : Nat) (b : Bool) : Nat := if b then tag field + 1 else 0

def delimited (field length : Nat) : Nat := tag field + varint length + length

def bytes (field : Nat) (b : Bytes) : Nat := if b = [] then 0 else delimited field b.length

def text (field : Nat) (s : String) : Nat := bytes field (ascii s)

def optional {α : Type} (size : α → Nat) : Option α → Nat
  | some a => size a
  | none => 0

def repeated {α : Type} (size : α → Nat) (items : List α) : Nat := (items.map size).sum

end Wire

open Wire

def SpeechTask.value : SpeechTask → Int
  | .unspecified => 0
  | .transcribe => 1
  | .translateToEnglish => 2
  | .unrecognized value => value

def ChunkingStrategy.value : ChunkingStrategy → Int
  | .unspecified => 0
  | .fixed => 1
  | .speechAware => 2
  | .unrecognized value => value

def NoPausePolicy.value : NoPausePolicy → Int
  | .unspecified => 0
  | .splitWithOverlap => 1
  | .fail => 2
  | .unrecognized value => value

def SpeechTokenKind.value : SpeechTokenKind → Int
  | .unspecified => 0
  | .text => 1
  | .control => 2
  | .unrecognized value => value

def ReconciliationStatus.value : ReconciliationStatus → Int
  | .unspecified => 0
  | .direct => 1
  | .aligned => 2
  | .unresolved => 3
  | .pending => 4

def Cursor.byteSize (c : Cursor) : Nat :=
  bytes 1 c.serverEpoch + bytes 2 c.streamId + uint 3 c.eventSequence + bytes 4 c.streamIncarnation

def Producer.byteSize (p : Producer) : Nat :=
  bytes 1 p.machineId + bytes 2 p.service + bytes 3 p.appVersion + bytes 4 p.buildId +
    bytes 5 p.libraryVersion + bytes 6 p.executionBackend + bytes 7 p.modelId +
    bytes 8 p.modelSha256 + bytes 9 p.configurationSha256

def Timestamp.byteSize (t : Timestamp) : Nat := int 1 t.seconds + int 2 t.nanos

def DirectSource.byteSize (s : DirectSource) : Nat := bytes 1 s.name + bytes 2 s.mediaType

def SpeechBoundaryOptions.byteSize (b : SpeechBoundaryOptions) : Nat :=
  bytes 1 b.vadModelId + uint 2 b.minPauseMs + uint 3 b.speechPaddingMs + uint 4 b.maxWindowMs +
    int 5 b.noPausePolicy.value

def SpeechWindowing.byteSize (w : SpeechWindowing) : Nat :=
  optional (fun n => tag 1 + varint n) w.windowMs + optional (fun n => tag 2 + varint n) w.overlapMs +
    int 3 w.strategy.value + optional (fun b => delimited 4 b.byteSize) w.speechBoundary

def SpeechOptions.byteSize (o : SpeechOptions) : Nat :=
  bytes 1 o.modelId + bytes 2 o.language + int 3 o.task.value + flag 4 o.wordTimestamps +
    optional (fun w => delimited 5 w.byteSize) o.windowing +
    optional (fun _ => tag 6 + 1) o.reconcileTranscript

def DecodeOptions.byteSize (d : DecodeOptions) : Nat :=
  flag 1 d.emitAudio + flag 2 d.emitPackets +
    if d.audioTrackIds = [] then 0 else delimited 3 (repeated varint d.audioTrackIds)

def SourceChunk.byteSize (c : SourceChunk) : Nat :=
  uint 1 c.chunkNumber + uint 2 c.byteOffset + bytes 3 c.data + bytes 4 c.sha256

def StreamOpened.byteSize (o : StreamOpened) : Nat :=
  delimited 1 o.source.byteSize + uint 2 o.maxChunkBytes + uint 3 o.retentionBytes +
    repeated (fun s => delimited 4 s.byteSize) o.speech +
    optional (fun d => delimited 5 d.byteSize) o.decode

def StreamClosed.byteSize (c : StreamClosed) : Nat :=
  uint 1 c.statusCode + text 2 c.message + uint 3 c.sourceChunkCount + uint 4 c.sourceByteCount +
    bytes 5 c.sourceSha256

def AudioChunk.byteSize (a : AudioChunk) : Nat :=
  uint 1 a.chunkNumber + uint 2 a.trackId + uint 3 a.firstSample + uint 4 a.sampleRate +
    uint 5 a.channels + bytes 6 a.pcmF32le + optional (fun t => tag 7 + signed t) a.presentationTimeUs +
    flag 8 a.discontinuity

def HttpResponseInfo.byteSize (h : HttpResponseInfo) : Nat := bytes 1 h.origin + uint 2 h.statusCode

def WhisperTokenMetadata.byteSize (w : WhisperTokenMetadata) : Nat :=
  (if w.logProbability = 0 then 0 else tag 2 + 4) + w.rest.length

def ParakeetTokenMetadata.byteSize (p : ParakeetTokenMetadata) : Nat :=
  flag 7 p.isWordStart + p.rest.length

def SpeechToken.byteSize (t : SpeechToken) : Nat :=
  bytes 2 t.text + optional (fun n => tag 4 + signed n) t.startUs +
    optional (fun n => tag 5 + signed n) t.endUs + int 6 t.kind.value +
    optional (fun w => delimited 7 w.byteSize) t.whisper +
    optional (fun b => delimited 8 b.length) t.renderedText +
    optional (fun p => delimited 9 p.byteSize) t.parakeet + t.rest.length

def TranscriptSegment.byteSize (s : TranscriptSegment) : Nat :=
  bytes 1 s.segmentId + uint 2 s.revision + flag 3 s.final + uint 4 s.trackId + int 5 s.startUs +
    int 6 s.endUs + bytes 7 s.text + bytes 8 s.sourceLanguage + bytes 9 s.outputLanguage +
    int 10 s.task.value + optional (fun _ => tag 11 + 8) s.averageLogProbability +
    repeated (fun t => delimited 12 t.byteSize) s.tokens +
    int 13 s.reconciliation.value +
    optional (fun p => delimited 14 p.byteSize) s.producer +
    repeated (fun p => delimited 15 p.byteSize) s.contributors

def SpeechHypothesis.byteSize (h : SpeechHypothesis) : Nat :=
  uint 1 h.windowNumber + uint 2 h.trackId +
    repeated (fun s => delimited 3 s.byteSize) h.segments + uint 4 h.firstSample +
    uint 5 h.firstNewSample + uint 6 h.sampleCount + int 7 h.boundary +
    optional (fun p => delimited 8 p.byteSize) h.producer +
    repeated (fun p => delimited 9 p.byteSize) h.contributors +
    optional (fun t => tag 10 + signed t) h.presentationTimeUs +
    optional (fun e => delimited 11 e.length) h.encoderContext

def Payload.byteSize : Payload → Nat
  | .opened o => delimited 4 o.byteSize
  | .source c => delimited 5 c.byteSize
  | .audio a => delimited 6 a.byteSize
  | .transcript s => delimited 7 s.byteSize
  | .closed c => delimited 8 c.byteSize
  | .mediaInfo m => delimited 9 m.wire.length
  | .packet p => delimited 10 p.wire.length
  | .hypothesis h => delimited 11 h.byteSize
  | .httpInfo h => delimited 12 h.byteSize

def StreamEvent.byteSize (e : StreamEvent) : Nat :=
  delimited 1 e.cursor.byteSize + optional (fun p => delimited 2 p.byteSize) e.producer +
    delimited 3 e.emittedAt.byteSize + optional Payload.byteSize e.payload

def StreamSnapshot.byteSize (s : StreamSnapshot) : Nat :=
  delimited 1 s.through.byteSize + uint 2 s.firstRetainedSequence +
    optional (fun o => delimited 3 o.byteSize) s.opened +
    optional (fun c => delimited 4 c.byteSize) s.closed +
    repeated (fun p => delimited 5 p.byteSize) s.producers +
    repeated (fun t => delimited 6 t.byteSize) s.transcripts + flag 7 s.resultStateTruncated +
    optional (fun m => delimited 8 m.wire.length) s.mediaInfo +
    repeated (fun h => delimited 9 h.byteSize) s.hypotheses +
    optional (fun h => delimited 10 h.byteSize) s.httpInfo

def SubscribeResponse.byteSize : SubscribeResponse → Nat
  | .snapshotBegin snapshotId through =>
    delimited 1 (bytes 1 snapshotId + repeated (fun c => delimited 2 c.byteSize) through)
  | .snapshot s => delimited 2 s.byteSize
  | .event e => delimited 3 e.byteSize
  | .snapshotEnd snapshotId => delimited 4 (bytes 1 snapshotId)

end GrpcAsr.Media
