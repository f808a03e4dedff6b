import GrpcAsr.Library.Emitting
import GrpcAsr.Media.Basic

/-!
# Speech windows over a decoded audio track

`Windowing` buffers mono PCM and cuts it into bounded windows: fixed lengths with
overlap, or cuts inside detected pauses with a hard limit. Samples are the bit
patterns of 32-bit floats. The emit callback is the list of emitted windows.
-/

namespace GrpcAsr.Media

open Emitting

set_option autoImplicit false

abbrev Sample := BitVec 32

def Sample.isFinite (sample : Sample) : Bool := sample.extractLsb' 23 8 != 255#8

inductive WindowBoundary
  | fixed | pause | forced | «end» | discontinuity
  deriving DecidableEq, Repr

structure WindowPolicy where
  targetSamples : Nat
  maxSamples : Nat
  overlapSamples : Nat
  minPauseSamples : Nat
  paddingSamples : Nat
  speechAware : Bool
  failWithoutPause : Bool
  deriving DecidableEq, Repr

structure SpeechWindow where
  number : Nat
  firstSample : Nat
  firstNewSample : Nat
  boundary : WindowBoundary
  samples : List Sample
  deriving DecidableEq, Repr

def SpeechWindow.end (window : SpeechWindow) : Nat := window.firstSample + window.samples.length

structure Windowing where
  policy : WindowPolicy
  buffer : List Sample
  first : Nat
  received : Nat
  committed : Nat
  number : Nat
  silenceStart : Nat
  inSilence : Bool
  finished : Bool
  deriving DecidableEq, Repr

abbrev WindowOutcome := Outcome Windowing SpeechWindow Exception

namespace WindowPolicy

def bounded (policy : WindowPolicy) : Bool :=
  policy.targetSamples != 0 && policy.targetSamples ≤ policy.maxSamples &&
    policy.maxSamples ≤ 16000 * 30 && policy.overlapSamples < policy.targetSamples

def pausesValid (policy : WindowPolicy) : Bool :=
  policy.minPauseSamples != 0 && policy.minPauseSamples ≤ policy.maxSamples &&
    policy.paddingSamples * 2 < policy.maxSamples &&
    (policy.failWithoutPause || policy.overlapSamples != 0)

end WindowPolicy

namespace Windowing

def create (policy : WindowPolicy) : Except Exception Windowing :=
  if !policy.bounded then .error (.invalidArgument "invalid bounded speech window policy")
  else if policy.speechAware && !policy.pausesValid then
    .error (.invalidArgument "invalid pause boundary policy")
  else .ok ⟨policy, [], 0, 0, 0, 0, 0, false, false⟩

def emit (w : Windowing) (count : Nat) (boundary : WindowBoundary) (overlap : Nat) :
    WindowOutcome :=
  if count = 0 ∨ w.first + count ≤ w.committed then ⟨w, [], none⟩
  else
    let window : SpeechWindow :=
      ⟨w.number + 1, w.first, w.committed, boundary, w.buffer.take count⟩
    let consume := count - overlap
    ⟨{ w with
        number := w.number + 1
        committed := w.first + count
        buffer := w.buffer.drop consume
        first := w.first + consume }, [window], none⟩

/-- The silence bookkeeping and the push that precede every boundary decision. -/
def receive (w : Windowing) (speech : Bool) (sample : Sample) : Windowing :=
  let w :=
    if speech then { w with inSilence := false }
    else if !w.inSilence then { w with silenceStart := w.received, inSilence := true }
    else w
  { w with buffer := w.buffer ++ [sample], received := w.received + 1 }

def pauseCut (w : Windowing) : Nat :=
  max (w.first + w.policy.targetSamples) (w.silenceStart + w.policy.paddingSamples)

def cutAtPause (w : Windowing) : WindowOutcome :=
  if w.inSilence && w.policy.minPauseSamples ≤ w.received - w.silenceStart &&
      w.first < w.pauseCut && w.pauseCut + w.policy.paddingSamples ≤ w.received then
    w.emit (w.pauseCut - w.first) .pause 0
  else ⟨w, [], none⟩

def cutAtLimit (w : Windowing) : WindowOutcome :=
  if w.policy.maxSamples ≤ w.buffer.length then
    if w.policy.failWithoutPause then
      ⟨{ w with finished := true }, [],
        some (.lengthError "no speech pause before hard window limit")⟩
    else w.emit w.buffer.length .forced w.policy.overlapSamples
  else ⟨w, [], none⟩

def cutFixed (w : Windowing) : WindowOutcome :=
  if w.buffer.length = w.policy.targetSamples then
    w.emit w.buffer.length .fixed w.policy.overlapSamples
  else ⟨w, [], none⟩

def appendSample (speech : Bool) (w : Windowing) (sample : Sample) : WindowOutcome :=
  if !sample.isFinite then ⟨w, [], some (.invalidArgument "nonfinite PCM sample")⟩
  else if !w.policy.speechAware then (w.receive speech sample).cutFixed
  else (w.receive speech sample).cutAtPause.next cutAtLimit

def append (w : Windowing) (samples : List Sample) (speech : Bool) : WindowOutcome :=
  if w.finished then ⟨w, [], some (.logicError "audio after window close")⟩
  else runAll (appendSample speech) w samples

def finish (w : Windowing) : WindowOutcome :=
  if w.finished then ⟨w, [], some (.logicError "window stream already closed")⟩
  else (w.emit w.buffer.length .end 0).next fun w =>
    ⟨{ w with buffer := [], finished := true }, [], none⟩

def discontinuity (w : Windowing) : WindowOutcome :=
  if w.finished then ⟨w, [], some (.logicError "discontinuity after close")⟩
  else (w.emit w.buffer.length .discontinuity 0).next fun w =>
    ⟨{ w with buffer := [], first := w.received, inSilence := false }, [], none⟩

end Windowing

/-- One call of a window stream before its close. -/
inductive WindowCall
  | append (samples : List Sample) (speech : Bool)
  | discontinuity

def WindowCall.audio : WindowCall → List Sample
  | append samples _ => samples
  | discontinuity => []

def Windowing.call (w : Windowing) : WindowCall → WindowOutcome
  | .append samples speech => w.append samples speech
  | .discontinuity => w.discontinuity

def Windowing.run (w : Windowing) (calls : List WindowCall) : WindowOutcome :=
  runAll Windowing.call w calls

end GrpcAsr.Media
