import Mathlib.Logic.Function.Basic
import GrpcAsr.Library.Emitting
import GrpcAsr.Media.SpeechWorker

/-!
# Decoded audio

The decoder turns the frames of each audio track into chunks of mono 16 kHz samples. The
media library is a parameter: a call on a track carries the library's answers while the
call runs, and time conversion and the comparison of channel layouts are functions of the
environment.
-/

namespace GrpcAsr.Media

open Emitting

set_option autoImplicit false

structure AVRational where
  num : Int
  den : Int
  deriving DecidableEq

def kOutputRate : Nat := 16000

def kMicros : AVRational := ⟨1, 1000000⟩

/-- The sum of two signed 64-bit values with saturation. -/
def satAdd64 (a b : Int) : Int := max (-2 ^ 63) (min (2 ^ 63 - 1) (a + b))

structure ChannelLayout where
  nbChannels : Int
  description : Bytes
  deriving DecidableEq, Inhabited

structure DecodedFrame where
  sampleRate : Int
  layout : ChannelLayout
  nbSamples : Int
  format : Int
  bestEffortTimestamp : Option Int

/-- The answers of a resampler that is flushed: samples, or a failed call. -/
abbrev FlushReplies := List (Except Exception (List Sample))

/-- The answers while one frame is converted. A failed call throws, as does a cancellation
or a failed source callback noticed there. -/
structure FrameReplies where
  copyLayout : Option Exception
  allocate : Option Exception
  swrInit : Option Exception
  flush : FlushReplies
  reset : Option Exception
  outSamples : Except Exception Int
  resampled : Except Exception (List Sample)

inductive DecodeCall
  | frame (frame : DecodedFrame) (replies : FrameReplies)
  | drain (replies : FlushReplies)

structure AudioState where
  resampler : Bool
  inputLayout : ChannelLayout
  inputRate : Int
  inputFormat : Int
  samples : Nat
  inputSamples : Nat
  chunks : Nat
  originSample : Nat
  originUs : Option Int
  nextInputUs : Option Int
  discontinuity : Bool
  deriving Inhabited

structure DecodeEnv where
  rescaleQ : Int → AVRational → AVRational → Int
  sameLayout : ChannelLayout → ChannelLayout → Bool
  timeBase : Nat → AVRational
  emit : AudioChunk → Option Exception

abbrev AudioOutcome := Outcome AudioState AudioChunk Exception

/-- The pieces of at most 4096 samples in which a buffer is emitted. -/
def pieces : List Sample → List (List Sample)
  | [] => []
  | sample :: samples => (sample :: samples.take 4095) :: pieces (samples.drop 4095)
termination_by samples => samples.length
decreasing_by
  rw [List.length_drop, List.length_cons]
  omega

def limit (ok : Bool) (message : String) : Except Exception Unit :=
  if ok then .ok () else .error (.failure ⟨.resourceExhausted, message⟩)

def check (result : Option Exception) : Except Exception Unit :=
  match result with
  | none => .ok ()
  | some e => .error e

namespace DecodeEnv

/-- The microseconds that `count` samples take at a rate. -/
def duration (env : DecodeEnv) (count rate : Int) : Int := env.rescaleQ count ⟨1, rate⟩ kMicros

def timestamp (env : DecodeEnv) (track : Nat) (frame : DecodedFrame) : Option Int :=
  frame.bestEffortTimestamp.map fun pts => env.rescaleQ pts (env.timeBase track) kMicros

end DecodeEnv

namespace AudioState

variable (env : DecodeEnv) (track : Nat)

def presentationTime (s : AudioState) : Option Int :=
  s.originUs.map fun origin =>
    satAdd64 origin (env.duration (s.samples - s.originSample : Nat) kOutputRate)

def chunk (s : AudioState) (samples : List Sample) : AudioChunk :=
  { chunkNumber := s.chunks + 1
    trackId := track
    firstSample := s.samples
    sampleRate := kOutputRate
    channels := 1
    pcmF32le := encodePcm samples
    presentationTimeUs := s.presentationTime env
    discontinuity := s.discontinuity }

def emitChunk (s : AudioState) (samples : List Sample) : AudioOutcome :=
  match limit (s.samples ≤ 2 ^ 63 - 1 - samples.length && s.chunks < 2 ^ 64 - 1)
      "audio timeline exhausted" with
  | .error e => ⟨s, [], some e⟩
  | .ok () =>
    ⟨{ s with
        chunks := s.chunks + 1
        discontinuity := false
        samples := s.samples + samples.length },
      [s.chunk env track samples], env.emit (s.chunk env track samples)⟩

def emitAudio (s : AudioState) (samples : List Sample) : AudioOutcome :=
  runAll (emitChunk env track) s (pieces samples)

/-- The flush ends with the first answer without samples. -/
def drain : AudioState → FlushReplies → AudioOutcome
  | s, [] => ⟨s, [], none⟩
  | s, .error e :: _ => ⟨s, [], some e⟩
  | s, .ok samples :: replies =>
    if samples = [] then ⟨s, [], none⟩
    else (s.emitAudio env track samples).next fun s => drain s replies

def flushResampler (s : AudioState) (replies : FlushReplies) : AudioOutcome :=
  if s.resampler then s.drain env track replies else ⟨s, [], none⟩

/-- The checks on a frame; the first one configures the resampler. -/
def prepare (s : AudioState) (frame : DecodedFrame) (replies : FrameReplies) :
    Except Exception AudioState := do
  limit (0 < frame.sampleRate && frame.sampleRate ≤ 384000 && 0 < frame.layout.nbChannels &&
      frame.layout.nbChannels ≤ 32 && 0 ≤ frame.nbSamples && frame.nbSamples ≤ 1024 * 1024)
    "decoded audio dimensions exceed limit"
  limit (s.inputSamples ≤ 2 ^ 64 - 1 - frame.nbSamples.toNat) "input sample counter exhausted"
  let s := { s with inputSamples := s.inputSamples + frame.nbSamples.toNat }
  if !s.resampler then
    check replies.copyLayout
    check replies.allocate
    check replies.swrInit
    return { s with
      resampler := true
      inputRate := frame.sampleRate
      inputFormat := frame.format
      inputLayout := frame.layout }
  else if s.inputRate ≠ frame.sampleRate ∨ s.inputFormat ≠ frame.format ∨
      env.sameLayout s.inputLayout frame.layout = false then
    throw (.failure ⟨.unimplemented, "midstream audio format change requires a new stream"⟩)
  else return s

def jumped (s : AudioState) (timestamp : Int) : Bool :=
  match s.nextInputUs with
  | none => false
  | some next => 2000 < timestamp - next || timestamp - next < -2000

/-- What is left in the resampler still belongs before the jump. -/
def reset (s : AudioState) (replies : FrameReplies) : AudioOutcome :=
  (s.flushResampler env track replies.flush).next fun s =>
    match replies.reset with
    | some e => ⟨s, [], some e⟩
    | none => ⟨{ s with discontinuity := true }, [], none⟩

def setOrigin (s : AudioState) (timestamp : Int) (jump : Bool) : AudioState :=
  if s.originUs = none ∨ jump = true then
    { s with originUs := some timestamp, originSample := s.samples }
  else s

def place (s : AudioState) (frame : DecodedFrame) (replies : FrameReplies) : AudioOutcome :=
  let duration := env.duration frame.nbSamples s.inputRate
  match env.timestamp track frame with
  | none => ⟨{ s with nextInputUs := s.nextInputUs.map fun next => satAdd64 next duration }, [], none⟩
  | some timestamp =>
    let jump := s.jumped timestamp
    (if jump then s.reset env track replies else ⟨s, [], none⟩).next fun s =>
      ⟨{ s.setOrigin timestamp jump with nextInputUs := some (satAdd64 timestamp duration) }, [], none⟩

def resample (s : AudioState) (replies : FrameReplies) : AudioOutcome :=
  match replies.outSamples with
  | .error e => ⟨s, [], some e⟩
  | .ok capacity =>
    match limit (capacity ≤ 1024 * 1024) "resampled audio exceeds limit" with
    | .error e => ⟨s, [], some e⟩
    | .ok () =>
      match replies.resampled with
      | .error e => ⟨s, [], some e⟩
      | .ok samples => s.emitAudio env track samples

def convert (s : AudioState) (frame : DecodedFrame) (replies : FrameReplies) : AudioOutcome :=
  match s.prepare env frame replies with
  | .error e => ⟨s, [], some e⟩
  | .ok s => (s.place env track frame replies).next fun s => s.resample env track replies

def call (s : AudioState) : DecodeCall → AudioOutcome
  | .frame frame replies => s.convert env track frame replies
  | .drain replies => s.flushResampler env track replies

end AudioState

/-- The audio states of all tracks; a track's state is made when it is first needed. -/
abbrev AudioTracks := Nat → AudioState

def AudioTracks.call (env : DecodeEnv) (tracks : AudioTracks) (call : Nat × DecodeCall) :
    Outcome AudioTracks AudioChunk Exception :=
  let o := (tracks call.1).call env call.1 call.2
  ⟨Function.update tracks call.1 o.state, o.emitted, o.error⟩

/-- The decoder's calls on its tracks, in any order, up to the first that throws. -/
def decodeAudio (env : DecodeEnv) (calls : List (Nat × DecodeCall)) :
    Outcome AudioTracks AudioChunk Exception :=
  runAll (AudioTracks.call env) (fun _ => default) calls

end GrpcAsr.Media
