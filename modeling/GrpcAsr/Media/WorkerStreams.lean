import GrpcAsr.Library.Parties
import GrpcAsr.Media.SpeechWorker
import GrpcAsr.Media.Uuid

/-!
# The streams of a speech worker

All streams of a worker share the counter that admits them and the flag of the one
inference slot; everything else is a stream's own. Each atomic operation is a step of its
own, so that the steps of the streams come in any order. A stream ends with its status
before its place is given back.
-/

namespace GrpcAsr.Media

set_option autoImplicit false

structure OpenTrack where
  streamId : Bytes
  trackId : Nat
  options : SpeechOptions
  deriving DecidableEq, Inhabited

structure WorkerOpened where
  accepted : OpenTrack
  producer : Producer
  maxWindowSamples : Nat
  deriving DecidableEq, Inhabited

inductive SpeechBackend
  | whisper (modelId : Bytes) (multilingual : Bool) (knowsLanguage : Bytes → Bool)
  | parakeet (modelId : Bytes)

def SpeechBackend.modelId : SpeechBackend → Bytes
  | .whisper modelId _ _ => modelId
  | .parakeet modelId => modelId

def SpeechBackend.validateOptions (backend : SpeechBackend) (options : SpeechOptions) :
    Except Failure Unit :=
  match backend with
  | .whisper modelId multilingual knowsLanguage => do
    require (options.task != .translateToEnglish || multilingual) .invalidArgument
      "translation requires multilingual Whisper weights"
    require (options.modelId == modelId && !options.language.contains 0 &&
      (options.language.isEmpty || knowsLanguage options.language) &&
      (options.task == .unspecified || options.task == .transcribe ||
        options.task == .translateToEnglish) &&
      (multilingual || options.language.isEmpty || options.language == ascii "en"))
      .invalidArgument "invalid speech model options"
  | .parakeet modelId =>
    require (options.modelId == modelId && options.language.isEmpty &&
      (options.task == .unspecified || options.task == .transcribe)) .invalidArgument
      "Parakeet accepts transcription without language hints only"

/-- A worker: its backend and identity, and the digest of a configuration. -/
structure WorkerConfig where
  backend : SpeechBackend
  producer : Producer
  configurationSha256 : SpeechOptions → Bytes

/-- What a worker is constructed from: the loaded weights, the engine that runs them, the build
and the deployment. -/
structure WorkerSetup where
  backend : SpeechBackend
  weights : Bytes
  engineVersion : Bytes
  executionBackend : Bytes
  threads : Int
  appVersion : Bytes
  buildId : Bytes
  machineId : Bytes
  inputIdleMs : Int

/-- The worker's constructor. -/
def WorkerConfig.create (sha256 : Bytes → Bytes) (serialize : SpeechOptions → Bytes)
    (setup : WorkerSetup) (machineEntropy : Entropy) : Except Failure WorkerConfig := do
  require (decide (0 < setup.inputIdleMs ∧ setup.inputIdleMs ≤ 3600000)) .invalidArgument
    "invalid worker input idle timeout"
  let machineId := if setup.machineId.isEmpty then uuid machineEntropy else setup.machineId
  require (validUuid machineId) .invalidArgument "invalid worker machine UUID"
  return {
    backend := setup.backend
    producer :=
      { machineId := machineId
        service := ascii "grpc-asr-speech-worker"
        appVersion := setup.appVersion
        buildId := setup.buildId
        libraryVersion := setup.engineVersion
        executionBackend := setup.executionBackend
        modelId := setup.backend.modelId
        modelSha256 := sha256 setup.weights
        configurationSha256 := [] }
    configurationSha256 := fun options =>
      sha256 (serialize options ++ ascii (":threads=" ++ toString setup.threads ++
        ":input_idle_ms=" ++ toString setup.inputIdleMs)) }

def maxWorkerStreams : Nat := 32

def WorkerConfig.open (config : WorkerConfig) (request : OpenTrack) : Except Failure WorkerOpened := do
  require (validUuid request.streamId) .invalidArgument "invalid source stream UUID"
  require request.options.windowing.isNone .invalidArgument
    "worker accepts pre-cut windows, not a windowing policy"
  config.backend.validateOptions request.options
  let options :=
    if request.options.task = .unspecified then { request.options with task := .transcribe }
    else request.options
  return {
    accepted := { request with options := options }
    producer :=
      { config.producer with configurationSha256 := config.configurationSha256 options }
    maxWindowSamples := maxWindowSamples }

inductive WorkerMessage
  | opening (request : OpenTrack)
  | window (input : InferenceWindow)
  | finish (windowCount : Nat)
  | unset

/-- What a failing stream ends with. -/
def workerStatus : Exception → Failure
  | .failure failure => failure
  | _ => ⟨.internal, "speech worker failed"⟩

abbrev InferenceReply := List TranscriptSegment × Option Bytes

/-- Where a stream stands between two steps. -/
inductive WorkerPhase
  | arriving
  | withdrawing
  | opening
  | reading (opened : WorkerOpened) (worker : SpeechWorker)
  | contending (opened : WorkerOpened) (worker : SpeechWorker) (input : InferenceWindow)
  | inferring (opened : WorkerOpened) (worker : SpeechWorker) (input : InferenceWindow)
  | leaving (status : Failure)
  | left (status : Failure)

namespace WorkerPhase

/-- The stream stands in the counter of streams. -/
def counted : WorkerPhase → Bool
  | .arriving | .left _ => false
  | _ => true

/-- The stream was let in and has not given its place back. -/
def admitted : WorkerPhase → Bool
  | .arriving | .withdrawing | .left _ => false
  | _ => true

def infers : WorkerPhase → Bool
  | .inferring _ _ _ => true
  | _ => false

end WorkerPhase

/-- A stream and what it has answered so far. -/
structure WorkerStream where
  phase : WorkerPhase
  opened : Option WorkerOpened
  replies : List (InferenceWindow × SpeechHypothesis)

structure WorkerSystem where
  streams : Nat
  busy : Bool
  parties : List WorkerStream

inductive WorkerAction
  | arrive (i : Nat)
  | withdraw (i : Nat)
  | receive (i : Nat) (message : Option WorkerMessage) (written : Bool)
  | take (i : Nat)
  | inferred (i : Nat) (result : Except Exception InferenceReply) (fits written : Bool)
  | leave (i : Nat)

def WorkerStream.leave (party : WorkerStream) (code : StatusCode) (message : String) : WorkerStream :=
  { party with phase := .leaving ⟨code, message⟩ }

/-- The first message of a stream, which is none if the read failed. -/
def WorkerStream.start (config : WorkerConfig) (party : WorkerStream) (message : Option WorkerMessage)
    (written : Bool) : WorkerStream :=
  match message with
  | some (.opening request) =>
    match config.open request with
    | .error failure => { party with phase := .leaving failure }
    | .ok opened =>
      if written then { party with phase := .reading opened default, opened := some opened }
      else party.leave .cancelled "worker handshake disconnected"
  | _ => party.leave .invalidArgument "first worker message must open a track"

/-- A later message, up to the inference slot. -/
def WorkerStream.receive (party : WorkerStream) (opened : WorkerOpened) (worker : SpeechWorker)
    (message : Option WorkerMessage) (written : Bool) : WorkerStream :=
  match message with
  | none => party.leave .cancelled "worker input ended without explicit finish"
  | some (.finish windowCount) =>
    match worker.finish windowCount with
    | .error failure => { party with phase := .leaving failure }
    | .ok _ =>
      if written then party.leave .ok "" else party.leave .cancelled "worker close disconnected"
  | some (.window input) =>
    match worker.validate input with
    | .error failure => { party with phase := .leaving failure }
    | .ok () => { party with phase := .contending opened worker input }
  | some _ => party.leave .invalidArgument "expected worker window or finish"

/-- What follows an inference; the slot is free again by then. -/
def WorkerStream.reply (party : WorkerStream) (opened : WorkerOpened) (worker : SpeechWorker)
    (input : InferenceWindow) (result : Except Exception InferenceReply) (fits written : Bool) :
    WorkerStream :=
  match result with
  | .error e => { party with phase := .leaving (workerStatus e) }
  | .ok (segments, encoderContext) =>
    if !fits then party.leave .resourceExhausted "speech hypothesis exceeds output limit"
    else if !written then party.leave .cancelled "worker hypothesis disconnected"
    else
      { party with
        phase := .reading opened (worker.advance input)
        replies := party.replies ++ [(input, SpeechWorker.hypothesis
          ⟨opened.accepted.trackId, opened.producer, fun _ _ => .ok (segments, encoderContext)⟩
          input segments encoderContext)] }

namespace WorkerSystem

def start (streams : Nat) : WorkerSystem := ⟨0, false, List.replicate streams ⟨.arriving, none, []⟩⟩

variable (s : WorkerSystem)

def move (i : Nat) (party : WorkerStream) : WorkerSystem := { s with parties := s.parties.set i party }

/-- A step, unless the stream is not there to take it. -/
def step (config : WorkerConfig) (s : WorkerSystem) : WorkerAction → Option WorkerSystem
  | .arrive i =>
    match s.parties[i]? with
    | some ⟨.arriving, opened, replies⟩ =>
      let phase := if maxWorkerStreams ≤ s.streams then WorkerPhase.withdrawing else .opening
      some { s.move i ⟨phase, opened, replies⟩ with streams := s.streams + 1 }
    | _ => none
  | .withdraw i =>
    match s.parties[i]? with
    | some ⟨.withdrawing, opened, replies⟩ =>
      let status : Failure := ⟨.resourceExhausted, "speech worker stream limit reached"⟩
      some { s.move i ⟨.left status, opened, replies⟩ with streams := s.streams - 1 }
    | _ => none
  | .receive i message written =>
    match s.parties[i]? with
    | some ⟨.opening, opened, replies⟩ =>
      some (s.move i (WorkerStream.start config ⟨.opening, opened, replies⟩ message written))
    | some ⟨.reading opened worker, opened', replies⟩ =>
      some (s.move i
        (WorkerStream.receive ⟨.reading opened worker, opened', replies⟩ opened worker message written))
    | _ => none
  | .take i =>
    match s.parties[i]? with
    | some ⟨.contending opened worker input, opened', replies⟩ =>
      if s.busy then
        some (s.move i ⟨.leaving ⟨.resourceExhausted, "speech inference slot is busy"⟩, opened', replies⟩)
      else some { s.move i ⟨.inferring opened worker input, opened', replies⟩ with busy := true }
    | _ => none
  | .inferred i result fits written =>
    match s.parties[i]? with
    | some ⟨.inferring opened worker input, opened', replies⟩ =>
      let party : WorkerStream := ⟨.inferring opened worker input, opened', replies⟩
      some { s.move i (party.reply opened worker input result fits written) with busy := false }
    | _ => none
  | .leave i =>
    match s.parties[i]? with
    | some ⟨.leaving status, opened, replies⟩ =>
      some { s.move i ⟨.left status, opened, replies⟩ with streams := s.streams - 1 }
    | _ => none

def run (config : WorkerConfig) (actions : List WorkerAction) : WorkerSystem :=
  Parties.run (step config) s actions

end WorkerSystem

end GrpcAsr.Media
