import Mathlib.Data.Rat.Defs
import Mathlib.Algebra.Order.Ring.Rat
import GrpcAsr.Media.Windowing

/-!
# Voice activity detection in front of the windows

The detector sees whole frames of 512 samples; only real samples leave it again. The
native detector is a parameter: any state, any result for a frame, any effect of a reset.
-/

namespace GrpcAsr.Media

open Emitting

set_option autoImplicit false

/-- The native context. `detect` returns `none` when inference fails, else the
probabilities it computed, each `none` when it is not a finite float. -/
structure Detector where
  State : Type
  initial : State
  detect : State → List Sample → State × Option (List (Option ℚ))
  reset : State → State

structure Frame where
  samples : List Sample
  probability : ℚ
  deriving DecidableEq

structure VoiceActivity (D : Detector) where
  context : D.State
  pending : List Sample
  closed : Bool

abbrev VoiceOutcome (D : Detector) := Outcome (VoiceActivity D) Frame Exception

namespace VoiceActivity

variable {D : Detector}

def create (D : Detector) : VoiceActivity D := ⟨D.initial, [], false⟩

def flush (v : VoiceActivity D) : VoiceOutcome D :=
  if v.pending = [] then ⟨v, [], none⟩
  else
    match D.detect v.context (v.pending ++ List.replicate (512 - v.pending.length) 0#32) with
    | (context, some [some probability]) =>
      if probability < 0 ∨ 1 < probability then
        ⟨{ v with context := context }, [],
          some (.failure ⟨.internal, "invalid VAD probability"⟩)⟩
      else ⟨{ v with context := context, pending := [] }, [⟨v.pending, probability⟩], none⟩
    | (context, some [none]) =>
      ⟨{ v with context := context }, [], some (.failure ⟨.internal, "invalid VAD probability"⟩)⟩
    | (context, _) =>
      ⟨{ v with context := context }, [],
        some (.failure ⟨.internal, "native VAD inference failed"⟩)⟩

def appendSample (v : VoiceActivity D) (sample : Sample) : VoiceOutcome D :=
  if !sample.isFinite then ⟨v, [], some (.invalidArgument "nonfinite VAD sample")⟩
  else
    let v := { v with pending := v.pending ++ [sample] }
    if v.pending.length = 512 then v.flush else ⟨v, [], none⟩

/-- The handler around `append` and `discontinuity`: any exception closes the detector. -/
def closing (o : VoiceOutcome D) : VoiceOutcome D :=
  if o.error.isSome then { o with state := { o.state with closed := true } } else o

def append (v : VoiceActivity D) (samples : List Sample) : VoiceOutcome D :=
  if v.closed then ⟨v, [], some (.logicError "VAD input after close or failure")⟩
  else closing (runAll appendSample v samples)

def finish (v : VoiceActivity D) : VoiceOutcome D :=
  if v.closed then ⟨v, [], some (.logicError "VAD stream already closed")⟩
  else { v with closed := true }.flush

def discontinuity (v : VoiceActivity D) : VoiceOutcome D :=
  if v.closed then ⟨v, [], some (.logicError "VAD discontinuity after close")⟩
  else closing (v.flush.next fun v => ⟨{ v with context := D.reset v.context }, [], none⟩)

end VoiceActivity

/-- One call of an audio stream before its close. -/
inductive AudioCall
  | append (samples : List Sample)
  | discontinuity

def AudioCall.audio : AudioCall → List Sample
  | append samples => samples
  | discontinuity => []

def VoiceActivity.call {D : Detector} (v : VoiceActivity D) : AudioCall → VoiceOutcome D
  | .append samples => v.append samples
  | .discontinuity => v.discontinuity

def VoiceActivity.run {D : Detector} (v : VoiceActivity D) (calls : List AudioCall) :
    VoiceOutcome D := runAll VoiceActivity.call v calls

/-- A track's window selection: windows alone, or behind a detector whose frames count as
speech from one half on. -/
structure Listener (D : Detector) where
  vad : Option (VoiceActivity D)
  windows : Windowing

abbrev ListenOutcome (D : Detector) := Outcome (Listener D) SpeechWindow Exception

namespace Listener

variable {D : Detector}

def classify (w : Windowing) (frame : Frame) : WindowOutcome :=
  w.append frame.samples (1 / 2 ≤ frame.probability)

/-- The detector's callback appends each frame to the windows. An exception raised there
passes through the detector, which closes. -/
def hear (l : Listener D) (o : VoiceOutcome D) : ListenOutcome D :=
  let windows := runAll classify l.windows o.emitted
  match windows.error with
  | some e => ⟨⟨some { o.state with closed := true }, windows.state⟩, windows.emitted, some e⟩
  | none => ⟨⟨some o.state, windows.state⟩, windows.emitted, o.error⟩

def cut (l : Listener D) (o : WindowOutcome) : ListenOutcome D :=
  ⟨{ l with windows := o.state }, o.emitted, o.error⟩

def append (l : Listener D) (samples : List Sample) : ListenOutcome D :=
  match l.vad with
  | some v => l.hear (v.append samples)
  | none => l.cut (l.windows.append samples true)

/-- The detector's own operation, where there is a detector. -/
def drain (l : Listener D) (f : VoiceActivity D → VoiceOutcome D) : ListenOutcome D :=
  match l.vad with
  | some v => l.hear (f v)
  | none => ⟨l, [], none⟩

def discontinuity (l : Listener D) : ListenOutcome D :=
  (l.drain VoiceActivity.discontinuity).next fun l => l.cut l.windows.discontinuity

def finish (l : Listener D) : ListenOutcome D :=
  (l.drain VoiceActivity.finish).next fun l => l.cut l.windows.finish

def call (l : Listener D) : AudioCall → ListenOutcome D
  | .append samples => l.append samples
  | .discontinuity => l.discontinuity

def run (l : Listener D) (calls : List AudioCall) : ListenOutcome D := runAll call l calls

end Listener

end GrpcAsr.Media
