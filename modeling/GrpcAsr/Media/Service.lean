import GrpcAsr.Library.Interaction
import GrpcAsr.Media.Registry
import GrpcAsr.Media.EventLog

/-!
# Ingress calls of the media service

A call of `Service::process` is a program whose requests are the registry's operations;
everything between two of them is local. What the client sends and whether its
responses go through come with the call. The demuxer pulls bytes adaptively, only from
inside a native call, after which a stored reader error is thrown again; processing
reacts to every event it emits as it likes. Neither reports an error with the OK code.
-/

namespace GrpcAsr.Media

set_option autoImplicit false

open Interaction Emitting

def Exception.Genuine : Exception → Prop
  | .failure error => error.code ≠ .ok
  | _ => True

/-- An exception thrown by code the service calls back into. -/
abbrev Raised := { error : Exception // error.Genuine }

inductive RegistryRequest
  | openStream (request : OpenStream) (speechEnabled httpEnabled : Bool)
  | source (id : Bytes) (chunk : SourceChunk)
  | derived (id : Bytes) (draft : EventDraft) (libraryVersion : Bytes)
  | close (id : Bytes) (closed : StreamClosed)

/-- Clock readings and random bytes at the moment of a request. -/
structure Moment where
  now : Timestamp
  steadyNow : Int
  idEntropy : Entropy
  incarnationEntropy : Entropy

def RegistryRequest.operation (moment : Moment) : RegistryRequest → Operation
  | .openStream request speechEnabled httpEnabled =>
    .openStream request speechEnabled httpEnabled moment.idEntropy moment.incarnationEntropy
      moment.now
  | .source id chunk => .source id chunk moment.now
  | .derived id draft libraryVersion => .derived id draft libraryVersion moment.now
  | .close id closed => .close id closed moment.now moment.steadyNow

abbrev Reply := Except Failure StreamEvent

abbrev RegistryRequest.Answer (_ : RegistryRequest) : Type := Reply

/-- What the registry's caller gets: the published event or the failure. -/
def replyOf (outcome : Outcome System Emission Failure) : Reply :=
  match outcome.error, publishedEvents outcome.emitted with
  | some error, _ => .error error
  | none, event :: _ => .ok event
  | none, [] => .error ⟨.unknown, ""⟩

/-- What the demuxer gets from its read callback. -/
inductive Pulled
  | bytes (data : Bytes)
  | endOfFile
  | external

/-- What the demuxer does, outside (`false`) and inside (`true`) a native call. A pull may
find the call cancelled. -/
inductive Decoding : Bool → Type
  | done : Decoding false
  | throw (error : Raised) : Decoding false
  | emit (draft : EventDraft) (next : Decoding false) : Decoding false
  | enter (call : Decoding true) : Decoding false
  | pull (cancelled : Bool) (capacity : Nat) (next : Pulled → Decoding true) : Decoding true
  | leave (next : Decoding false) : Decoding true

/-- What processing does when it is called: it may emit events, learns how each went, and
returns or throws. -/
inductive Work (α : Type)
  | done (a : α)
  | throw (error : Raised)
  | emit (draft : EventDraft) (next : Option Exception → Work α)

structure ProcessingFactory where
  State : Type
  resolve : OpenStream → Except Exception OpenStream
  create : Bytes → OpenStream → Work State
  audio : State → AudioChunk → Work State
  finish : State → Work Unit

/-- One read from the client. A pulled HTTP source may first publish what it learned about
the response, and its reads may throw. -/
structure Arrival where
  describe : Option HttpResponseInfo
  result : Except Raised IngestRequest

structure ServiceConfig where
  native : Native
  limits : Limits
  processing : Option ProcessingFactory
  decoderVersion : Bytes
  httpVersion : Bytes

/-- Everything a call gets from outside: the first message, the later reads, which of its
writes go through, the demuxer's behaviour and whether it is cancelled at the end. -/
structure Call where
  http : Bool
  first : Option IngestRequest
  arrivals : List Arrival
  writeOk : Nat → Bool
  decoding : Decoding false
  cancelled : Bool

/-- The local variables of `process`, with the messages consumed so far. -/
structure Ingress (P : Type) where
  id : Bytes
  count : Nat
  bytes : Nat
  digest : Bytes
  explicitFinish : Bool
  finish : FinishStream
  buffered : Bytes
  offset : Nat
  processing : Option P
  arrivals : List Arrival
  written : Nat
  consumed : List IngestRequest

abbrev Ingest (P : Type) := Routine RegistryRequest RegistryRequest.Answer (Ingress P) Exception

structure IngestResult where
  status : Status
  consumed : List IngestRequest

namespace Ingest

variable {P : Type} (config : ServiceConfig) (call : Call)

def registry (request : RegistryRequest) : Ingest P StreamEvent := do
  match ← Routine.perform request with
  | .ok event => return event
  | .error error => Routine.throw (.failure error)

/-- One response write; whether it went through. -/
def write : Ingest P Bool := do
  let s ← Routine.get
  Routine.modify fun s => { s with written := s.written + 1 }
  return call.writeOk s.written

def send (_ : StreamEvent) : Ingest P Unit := do
  if ← write call then return ()
  else Routine.throw (.failure ⟨.cancelled, "ingress response disconnected"⟩)

/-- The description of an HTTP response, published and written once it is known. -/
def describe (info : HttpResponseInfo) : Ingest P Unit := do
  let s ← Routine.get
  let _ ← registry (.derived s.id (.of (.httpInfo info)) config.httpVersion)
  if ← write call then return ()
  else Routine.throw (.failure ⟨.cancelled, "HTTP source response disconnected"⟩)

def describeAll : List HttpResponseInfo → Ingest P Unit
  | [] => return ()
  | info :: rest => do
    describe config call info
    describeAll rest

def read : Ingest P (Option IngestRequest) := do
  let s ← Routine.get
  match s.arrivals with
  | [] => return none
  | arrival :: rest => do
    Routine.modify fun s => { s with arrivals := rest }
    describeAll config call arrival.describe.toList
    match arrival.result with
    | .error error => Routine.throw error.val
    | .ok message => do
      Routine.modify fun s => { s with consumed := s.consumed ++ [message] }
      return some message

/-- The checks of a source chunk against the counters. -/
def checkChunk (s : Ingress P) (chunk : SourceChunk) : Except Failure Unit := do
  require (!chunk.data.isEmpty) .invalidArgument "empty source chunk"
  require (decide (chunk.data.length ≤ config.limits.maxChunkBytes)) .resourceExhausted
    "source chunk exceeds negotiated limit"
  require (decide (s.count ≠ 2 ^ 64 - 1) && chunk.chunkNumber == s.count + 1 &&
    chunk.byteOffset == s.bytes) .invalidArgument
    "noncontiguous source chunk number or byte offset"
  require (decide (chunk.data.length ≤ 2 ^ 64 - 1 - s.bytes)) .resourceExhausted
    "source byte counter overflow"
  require (chunk.sha256.isEmpty || chunk.sha256 == config.native.sha256 chunk.data)
    .invalidArgument "source chunk checksum mismatch"

def takeChunk (chunk : SourceChunk) : Ingest P Unit := do
  let s ← Routine.get
  Routine.liftExcept ((checkChunk config s chunk).mapError .failure)
  let chunk := { chunk with sha256 := config.native.sha256 chunk.data }
  Routine.modify fun s =>
    { s with
      digest := s.digest ++ chunk.data
      count := s.count + 1
      bytes := s.bytes + chunk.data.length }
  let event ← registry (.source s.id chunk)
  send call event
  Routine.modify fun s => { s with buffered := chunk.data, offset := 0 }

/-- What becomes of a message read after the opening one: whether it was a chunk. -/
def takeMessage : IngestRequest → Ingest P Bool
  | .finish finish => do
    Routine.modify fun s => { s with finish := finish, explicitFinish := true }
    return false
  | .chunk chunk => do
    takeChunk config call chunk
    return true
  | _ => Routine.throw (.failure ⟨.invalidArgument, "expected a source chunk or finish"⟩)

def nextChunk : Ingest P Bool := do
  let s ← Routine.get
  if s.explicitFinish then return false
  else
    match ← read config call with
    | none => Routine.throw (.failure ⟨.cancelled, "input ended without FinishStream"⟩)
    | some message => takeMessage config call message

/-- Takes the next chunk once the current one is used up; false at the end of the input. -/
def refill : Ingest P Bool := do
  let s ← Routine.get
  if s.offset = s.buffered.length then nextChunk config call else return true

/-- The read callback: bytes of the current chunk, or of the next one. -/
def readMedia (capacity : Nat) : Ingest P Bytes := do
  if ← refill config call then
    let s ← Routine.get
    let data := (s.buffered.drop s.offset).take capacity
    Routine.modify fun s => { s with offset := s.offset + data.length }
    return data
  else return []

def emitProcessed (draft : EventDraft) : Ingest P Unit := do
  let s ← Routine.get
  let event ← registry (.derived s.id draft [])
  send call event

def work {α : Type} : Work α → Ingest P α
  | .done a => return a
  | .throw error => Routine.throw error.val
  | .emit draft next => do
    match ← Routine.attempt (emitProcessed call draft) with
    | .ok _ => work (next none)
    | .error error => work (next (some error))

def hearAudio (factory : ProcessingFactory) (draft : EventDraft) : Ingest factory.State Unit := do
  let s ← Routine.get
  match s.processing, draft.payload with
  | some state, some (.audio chunk) => do
    let state ← work call (factory.audio state chunk)
    Routine.modify fun s => { s with processing := some state }
  | _, _ => return ()

def isAudio (draft : EventDraft) : Bool :=
  match draft.payload with
  | some (.audio _) => true
  | _ => false

/-- The demuxer's emit callback. -/
def emitMedia (factory : ProcessingFactory) (emitAudio : Bool) (draft : EventDraft) :
    Ingest factory.State Unit := do
  hearAudio call factory draft
  if !isAudio draft || emitAudio then
    let s ← Routine.get
    let event ← registry (.derived s.id draft config.decoderVersion)
    send call event
  else return ()

/-- `decode_media`: the last error of the read callback waits for the end of the native call. -/
def decodeMedia (factory : ProcessingFactory) (emitAudio : Bool) :
    {inside : Bool} → Decoding inside → Option Exception → Ingest factory.State Unit
  | _, .done, _ => return ()
  | _, .throw error, _ => Routine.throw error.val
  | _, .emit draft next, readerError => do
    emitMedia config call factory emitAudio draft
    decodeMedia factory emitAudio next readerError
  | _, .enter inner, readerError => decodeMedia factory emitAudio inner readerError
  | _, .pull true _ next, _ =>
    decodeMedia factory emitAudio (next .external)
      (some (.failure ⟨.cancelled, "media decode cancelled"⟩))
  | _, .pull false capacity next, readerError => do
    match ← Routine.attempt (readMedia config call capacity) with
    | .ok [] => decodeMedia factory emitAudio (next .endOfFile) readerError
    | .ok data => decodeMedia factory emitAudio (next (.bytes data)) readerError
    | .error error => decodeMedia factory emitAudio (next .external) (some error)
  | _, .leave _, some error => Routine.throw error
  | _, .leave next, none => decodeMedia factory emitAudio next none

/-- The drain after decoding; every round takes an arrival, so their number bounds it. -/
def drain : Nat → Ingest P Unit
  | 0 => return ()
  | rounds + 1 => do
    if ← nextChunk config call then drain rounds
    else return ()

def drainAll : Ingest P Unit := do
  let s ← Routine.get
  drain config call (s.arrivals.length + 1)

/-- The processing of a call without a configured factory. -/
def noProcessing : ProcessingFactory := ⟨Empty, .ok, fun _ _ => .throw ⟨.logicError "", trivial⟩,
  fun state _ => state.elim, fun state => state.elim⟩

def createProcessing (factory : ProcessingFactory) (accepted : OpenStream) :
    Ingest factory.State Unit :=
  if accepted.speech.isEmpty then return ()
  else do
    let s ← Routine.get
    let state ← work call (factory.create s.id accepted)
    Routine.modify fun s => { s with processing := some state }

def finishProcessing (factory : ProcessingFactory) : Ingest factory.State Unit := do
  let s ← Routine.get
  match s.processing with
  | some state => work call (factory.finish state)
  | none => return ()

def decodeIfAsked (factory : ProcessingFactory) (accepted : OpenStream) :
    Ingest factory.State Unit :=
  if accepted.decode.isSome || !accepted.speech.isEmpty then
    decodeMedia config call factory accepted.decodeOptions.emitAudio call.decoding none
  else return ()

/-- The end of the body: the trailer must have come and must agree with the counters. -/
def settle (factory : ProcessingFactory) : Ingest factory.State Unit := do
  let s ← Routine.get
  if !s.explicitFinish then
    Routine.throw (.failure ⟨.cancelled, "input ended without FinishStream"⟩)
  else if s.finish.chunkCount ≠ s.count ∨ s.finish.byteCount ≠ s.bytes then
    Routine.throw (.failure ⟨.invalidArgument, "finish accounting mismatch"⟩)
  else finishProcessing call factory

/-- The body of `process` once the stream is open. -/
def ingest (factory : ProcessingFactory) (accepted : OpenStream) (opened : StreamEvent) :
    Ingest factory.State Unit := do
  send call opened
  createProcessing call factory accepted
  decodeIfAsked config call factory accepted
  drainAll config call
  settle call factory

end Ingest

def Exception.status : Exception → Status
  | .failure error => ⟨error.code, error.message⟩
  | _ => ⟨.internal, "ingress processing failed"⟩

/-- The status the body of a call ends with. -/
def bodyStatus : Except Exception Unit → Status
  | .ok _ => Status.OK
  | .error error => error.status

/-- The status reported in the terminal event. -/
def finalStatus {P : Type} (config : ServiceConfig) (call : Call) (s : Ingress P)
    (result : Except Exception Unit) : Status :=
  let status := bodyStatus result
  let status :=
    if status.isOk && !s.finish.sha256.isEmpty &&
        s.finish.sha256 != config.native.sha256 s.digest then
      ⟨.invalidArgument, "complete source checksum mismatch"⟩
    else status
  if call.cancelled then ⟨.cancelled, "ingress cancelled"⟩ else status

def StreamClosed.of {P : Type} (config : ServiceConfig) (s : Ingress P) (status : Status) :
    StreamClosed :=
  ⟨status.code.value, status.message, s.count, s.bytes, config.native.sha256 s.digest⟩

/-- The end of a call that has an id: the terminal event is published whatever happened
before, then written. -/
def finalize {P : Type} (config : ServiceConfig) (call : Call) (s : Ingress P)
    (result : Except Exception Unit) : Program RegistryRequest RegistryRequest.Answer IngestResult :=
  if s.id.isEmpty then .done ⟨bodyStatus result, s.consumed⟩
  else
    let status := finalStatus config call s result
    .perform (.close s.id (.of config s status)) fun
      | .error _ => .done ⟨⟨.internal, "ingress finalization failed"⟩, s.consumed⟩
      | .ok _ =>
        if !call.writeOk s.written && status.isOk then
          .done ⟨⟨.cancelled, "terminal response disconnected"⟩, s.consumed⟩
        else .done ⟨status, s.consumed⟩

def Ingress.start {P : Type} (call : Call) (id : Bytes) (request : IngestRequest) : Ingress P :=
  ⟨id, 0, 0, [], false, default, [], 0, none, call.arrivals, 0, [request]⟩

/-- The opening request as the service accepts it. -/
def accept (config : ServiceConfig) (request : OpenStream) : Except Exception OpenStream :=
  if request.speech.isEmpty then .ok request
  else
    match config.processing with
    | none => .error (.failure ⟨.unimplemented, "speech worker is not configured"⟩)
    | some factory => factory.resolve request

/-- `Service::process`. -/
def process (config : ServiceConfig) (call : Call) : Program RegistryRequest RegistryRequest.Answer IngestResult :=
  match call.first with
  | some (.open request) =>
    match accept config request with
    | .error error => .done ⟨error.status, [.open request]⟩
    | .ok accepted =>
      .perform (.openStream accepted config.processing.isSome call.http) fun
        | .error error => .done ⟨⟨error.code, error.message⟩, [.open request]⟩
        | .ok opened =>
          let factory := config.processing.getD Ingest.noProcessing
          (Ingest.ingest config call factory accepted opened
            (.start call opened.cursor.streamId (.open request))).bind fun result =>
              finalize config call result.2 result.1
  | first =>
    .done ⟨⟨.invalidArgument, "first message must open a stream"⟩, first.toList⟩

end GrpcAsr.Media
