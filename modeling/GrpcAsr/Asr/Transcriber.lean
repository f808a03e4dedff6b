import GrpcAsr.Asr.Events

/-!
# The transcription window loop

`Transcriber::run` pulls PCM into a window, decodes it, emits what the window edge could
not have cut and carries the rest. Reading, decoding, the sink and the stop token belong
to a host, over any monad; the decoder may call back and poll for an abort at any point.
The loop takes a number of rounds: with none left the host is asked to wait forever.
-/

namespace GrpcAsr.Asr

set_option autoImplicit false

open Media (Bytes ascii)

inductive Thrown
  | cancelled
  | queueTimeout (what : String)
  | decodeError (what : String)
  | durationCapExceeded (what : String)
  | toolError (what : String)
  | other (what : String)
  deriving DecidableEq

abbrev Sample := Float32

structure WhisperToken where
  special : Bool
  plog : Float32
  p : Float32
  text : Bytes
  t0 : Int64
  t1 : Int64

structure WhisperSegment where
  t0 : Int64
  t1 : Int64
  text : Bytes
  speakerTurnNext : Bool
  tokens : List WhisperToken

/-- What one whisper call does: it reports new segments, polls for an abort and returns
with a code, its segments and the language it detected. -/
inductive Whisper
  | newSegment (segments : List WhisperSegment) (count : Nat) (next : Whisper)
  | poll (next : Bool → Whisper)
  | returns (code : Int) (segments : List WhisperSegment) (language : Option Bytes)

structure EngineSegment where
  index : UInt32
  startMs : UInt64
  endMs : UInt64
  text : Bytes
  avgLogprob : Float32
  tokenCount : UInt32
  words : List Word
  speaker : Bytes
  speakerTurnNext : Bool

structure EngineResult where
  language : Bytes
  durationMs : UInt64
  finalSegments : UInt32
  tokens : UInt64
  aborted : Bool

structure EngineOptions where
  language : Bytes
  translate : Bool
  wordTimestamps : Bool
  diarize : Bool
  threads : Nat
  windowSeconds : Nat
  maxDurationSeconds : Nat

def modelSampleRate : Nat := 16000

def centisecToMs (t : Int64) : UInt64 := t.toUInt64 * 10

structure WindowCut where
  finalize : Nat
  resumeMs : UInt64

def cutWindow (segments : Nat) (lastWindow : Bool) (windowMs lastStartMs : UInt64) : WindowCut :=
  if segments = 0 then ⟨0, windowMs⟩
  else if !lastWindow && decide (2 ≤ segments) && decide (0 < lastStartMs) &&
      decide (lastStartMs < windowMs) then
    ⟨segments - 1, lastStartMs⟩
  else ⟨segments, windowMs⟩

structure RunState where
  windowBaseMs : UInt64
  windowBaseIndex : UInt32
  windowBaseSpeaker : UInt32
  abort : Bool

/-- The word being put together, with the sums over the tokens so far. -/
structure WordBuild where
  words : List Word
  word : Word
  logprobSum : Float
  counted : UInt32

def noWord : Word := ⟨[], 0, 0, 0⟩

def takeToken (options : EngineOptions) (run : RunState) (build : WordBuild)
    (token : WhisperToken) : WordBuild :=
  if token.special then build
  else
    let build :=
      { build with
        logprobSum := build.logprobSum + token.plog.toFloat
        counted := build.counted + 1 }
    if !options.wordTimestamps then build
    else
      let build :=
        if token.text.head? = some 32 ∧ build.word.text ≠ [] then
          { build with words := build.words ++ [build.word], word := noWord }
        else build
      let word :=
        if build.word.text.isEmpty then
          { build.word with
            startMs := run.windowBaseMs + centisecToMs token.t0
            probability := token.p }
        else
          { build.word with
            probability :=
              if token.p < build.word.probability then token.p else build.word.probability }
      { build with
        word :=
          { word with
            endMs := run.windowBaseMs + centisecToMs token.t1
            text := word.text ++ token.text } }

def readSegment (options : EngineOptions) (run : RunState) (segments : List WhisperSegment)
    (i : Nat) (segment : WhisperSegment) : EngineSegment :=
  let speaker := run.windowBaseSpeaker +
    UInt32.ofNat ((segments.take i).countP WhisperSegment.speakerTurnNext)
  let build := segment.tokens.foldl (takeToken options run) ⟨[], noWord, 0, 0⟩
  { index := run.windowBaseIndex + UInt32.ofNat i
    startMs := run.windowBaseMs + centisecToMs segment.t0
    endMs := run.windowBaseMs + centisecToMs segment.t1
    text := segment.text
    avgLogprob :=
      if build.counted = 0 then 0 else (build.logprobSum / build.counted.toFloat).toFloat32
    tokenCount := build.counted
    words := if build.word.text.isEmpty then build.words else build.words ++ [build.word]
    speaker := if options.diarize then ascii ("S" ++ toString (speaker + 1).toNat) else []
    speakerTurnNext := options.diarize && segment.speakerTurnNext }

/-- The segments of a window as the engine reports them, from a place on. -/
def readSegments (options : EngineOptions) (run : RunState) (segments : List WhisperSegment)
    (start stop : Nat) : List EngineSegment :=
  ((segments.zipIdx.take stop).drop start).map fun entry =>
    readSegment options run segments entry.2 entry.1

/-- What the loop needs of its surroundings. A whisper call gets the run state with its
callbacks. -/
structure Host (m : Type → Type) where
  read : Nat → m (List Sample)
  sink : EngineSegment → Bool → m Bool
  stopRequested : m Bool
  whisper : RunState → List Sample → m Whisper
  throw : Thrown → m EngineResult
  wait : m EngineResult

/-- The variables of the window loop. -/
structure Loop where
  run : RunState
  buffer : List Sample
  consumed : UInt64
  sourceDone : Bool
  result : EngineResult

namespace Transcriber

variable {m : Type → Type} [Monad m] (host : Host m) (options : EngineOptions)

def stopped (run : RunState) : m Bool := if run.abort then return true else host.stopRequested

def abortedWith (result : EngineResult) : EngineResult := { result with aborted := true }

/-- The callback of new segments: they go out as partials. -/
def onNewSegment : List EngineSegment → RunState → m RunState
  | [], run => return run
  | segment :: segments, run => do
    if ← host.sink segment false then onNewSegment segments run
    else onNewSegment segments { run with abort := true }

/-- A whisper call with its callbacks. -/
def decode : Whisper → RunState → m (RunState × Int × List WhisperSegment × Option Bytes)
  | .returns code segments language, run => return (run, code, segments, language)
  | .poll next, run => do
    let stop ← stopped host run
    decode (next stop) run
  | .newSegment segments count next, run => do
    let run ← onNewSegment host
      (readSegments options run segments (segments.length - count) segments.length) run
    decode next run

/-- The finals of a window, in order, until the sink refuses one. -/
def finalize : List EngineSegment → EngineResult → m EngineResult
  | [], result => return result
  | segment :: segments, result => do
    let result :=
      { result with
        tokens := result.tokens + segment.tokenCount.toUInt64
        finalSegments := result.finalSegments + 1 }
    if ← host.sink segment true then finalize segments result
    else return abortedWith result

def windowSamples : Nat := options.windowSeconds * modelSampleRate

def maxSamples : UInt64 := UInt64.ofNat options.maxDurationSeconds * UInt64.ofNat modelSampleRate

/-- The last segment's start, which matters only from two segments on. -/
def lastStartMs (segments : List WhisperSegment) : UInt64 :=
  if 2 ≤ segments.length then
    match segments.getLast? with
    | some segment => centisecToMs segment.t0
    | none => 0
  else 0

/-- The final window is padded to a second. -/
def padded (buffer : List Sample) (lastWindow : Bool) : List Sample :=
  if lastWindow && decide (buffer.length < modelSampleRate) then
    buffer ++ List.replicate (modelSampleRate - buffer.length) 0
  else buffer

def windowMs (buffer : List Sample) : UInt64 :=
  UInt64.ofNat buffer.length * 1000 / UInt64.ofNat modelSampleRate

def withDuration (loop : Loop) : EngineResult :=
  { loop.result with durationMs := loop.consumed * 1000 / UInt64.ofNat modelSampleRate }

/-- The loop after a window's finals have gone out. -/
def carry (loop : Loop) (segments : List EngineSegment) (cut : WindowCut) (result : EngineResult) :
    Loop :=
  let keepFrom := cut.resumeMs * UInt64.ofNat modelSampleRate / 1000
  { loop with
    run :=
      { loop.run with
        windowBaseIndex := loop.run.windowBaseIndex + UInt32.ofNat cut.finalize
        windowBaseSpeaker := loop.run.windowBaseSpeaker +
          UInt32.ofNat (segments.countP EngineSegment.speakerTurnNext)
        windowBaseMs := loop.run.windowBaseMs + cut.resumeMs }
    buffer := loop.buffer.drop (min keepFrom.toNat loop.buffer.length)
    result := result }

/-- What follows a decoded window: its finals, then the end or the next window. -/
def emitWindow (next : Loop → m EngineResult) (loop : Loop) (segments : List WhisperSegment) :
    m EngineResult := do
  let cut := cutWindow segments.length loop.sourceDone (windowMs loop.buffer) (lastStartMs segments)
  let finals := readSegments options loop.run segments 0 cut.finalize
  let result ← finalize host finals loop.result
  if result.aborted then return result
  else if loop.sourceDone then
    return withDuration { loop with result := result }
  else next (carry loop finals cut result)

def setLanguage (result : EngineResult) (language : Option Bytes) : EngineResult :=
  if result.language.isEmpty then { result with language := language.getD [] } else result

/-- One decode of the window in the buffer. -/
def decodeWindow (next : Loop → m EngineResult) (loop : Loop) : m EngineResult := do
  let loop := { loop with buffer := padded loop.buffer loop.sourceDone }
  if ← stopped host loop.run then return abortedWith loop.result
  else
    let whisper ← host.whisper loop.run loop.buffer
    let (run, code, segments, language) ← decode host options whisper loop.run
    let stop ← stopped host run
    if stop then return abortedWith loop.result
    else if code ≠ 0 then host.throw (.other "whisper_full failed mid-transcription")
    else
      emitWindow host options next
        { loop with run := run, result := setLanguage loop.result language } segments

/-- One read into the window. -/
def fill (next : Loop → m EngineResult) (loop : Loop) : m EngineResult := do
  if ← stopped host loop.run then return abortedWith loop.result
  else
    let got ← host.read (windowSamples options - loop.buffer.length)
    if got.isEmpty then next { loop with sourceDone := true }
    else
      let consumed := loop.consumed + UInt64.ofNat got.length
      if maxSamples options < consumed then
        host.throw (.durationCapExceeded ("media exceeds GRPC_ASR_MAX_DURATION_SECONDS=" ++
          toString options.maxDurationSeconds))
      else next { loop with buffer := loop.buffer ++ got, consumed := consumed }

/-- The loop: reads while the window has room, decodes it, and ends on an empty buffer. -/
def rounds : Nat → Loop → m EngineResult
  | 0, _ => host.wait
  | n + 1, loop =>
    if !loop.sourceDone && decide (loop.buffer.length < windowSamples options) then
      fill host options (rounds n) loop
    else if loop.buffer.isEmpty then return withDuration loop
    else decodeWindow host options (rounds n) loop

def run (n : Nat) : m EngineResult :=
  rounds host options n ⟨⟨0, 0, 0, false⟩, [], 0, false, ⟨[], 0, 0, 0, false⟩⟩

end Transcriber

end GrpcAsr.Asr
