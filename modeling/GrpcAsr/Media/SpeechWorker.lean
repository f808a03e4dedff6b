import GrpcAsr.Media.Messages
import GrpcAsr.Media.Windowing

/-!
# The speech worker's window loop

A worker stream takes numbered windows of little-endian float samples and answers each
with a hypothesis that echoes the window's position. Native inference, the inference
slot, the output limit and the transport are one parameter: the reply to a window, or
the failure with which the stream ends.
-/

namespace GrpcAsr.Media

set_option autoImplicit false

def maxWindowSamples : Nat := 480000

structure InferenceWindow where
  windowNumber : Nat
  firstSample : Nat
  firstNewSample : Nat
  pcmF32le : Bytes
  boundary : Int
  deriving DecidableEq, Inhabited

def sampleBytes (sample : Sample) : Bytes :=
  (List.range 4).map fun b => ⟨(sample >>> (b * 8)).setWidth 8⟩

def encodePcm (samples : List Sample) : Bytes := samples.flatMap sampleBytes

def decodePcm : Bytes → List Sample
  | a :: b :: c :: d :: rest =>
    (a.toBitVec.setWidth 32 ||| b.toBitVec.setWidth 32 <<< 8 ||| c.toBitVec.setWidth 32 <<< 16 |||
      d.toBitVec.setWidth 32 <<< 24) :: decodePcm rest
  | _ => []

theorem encodePcm_length (samples : List Sample) :
    (encodePcm samples).length = samples.length * 4 := by
  induction samples with
  | nil => rfl
  | cons sample samples ih =>
    rw [encodePcm, List.flatMap_cons, List.length_append]
    rw [encodePcm] at ih
    rw [ih, List.length_cons]
    simp only [sampleBytes, List.length_map, List.length_range]
    omega

theorem sample_bits (sample : Sample) :
    ((sample >>> (0 * 8)).setWidth 8).setWidth 32 |||
      ((sample >>> (1 * 8)).setWidth 8).setWidth 32 <<< 8 |||
      ((sample >>> (2 * 8)).setWidth 8).setWidth 32 <<< 16 |||
      ((sample >>> (3 * 8)).setWidth 8).setWidth 32 <<< 24 = sample := by
  apply BitVec.eq_of_getLsbD_eq
  intro i hi
  have hSecond : 8 ≤ i → 8 + (i - 8) = i := by omega
  have hThird : 16 ≤ i → 16 + (i - 16) = i := by omega
  have hFourth : 24 ≤ i → 24 + (i - 24) = i := by omega
  simp only [BitVec.getLsbD_or, BitVec.getLsbD_shiftLeft, BitVec.getLsbD_setWidth,
    BitVec.getLsbD_ushiftRight]
  grind

theorem decodePcm_encodePcm (samples : List Sample) : decodePcm (encodePcm samples) = samples := by
  induction samples with
  | nil => rfl
  | cons sample samples ih =>
    rw [encodePcm] at ih
    rw [encodePcm, List.flatMap_cons]
    simp only [sampleBytes, List.range, List.range.loop, List.map_cons, List.map_nil,
      List.cons_append, List.nil_append, decodePcm]
    rw [List.cons.injEq]
    exact ⟨sample_bits sample, ih⟩

theorem decodePcm_length (bytes : Bytes) : (decodePcm bytes).length = bytes.length / 4 := by
  fun_induction decodePcm bytes with
  | case1 a b c d rest ih =>
    simp only [List.length_cons, ih]
    omega
  | case2 bytes hShort =>
    have hLength : bytes.length < 4 := by
      rcases bytes with _ | ⟨a, _ | ⟨b, _ | ⟨c, _ | ⟨d, rest⟩⟩⟩⟩
      · simp
      · simp
      · simp
      · simp
      · exact absurd rfl (hShort a b c d rest)
    rw [List.length_nil]
    omega

def WindowBoundary.value : WindowBoundary → Int
  | fixed => 0
  | pause => 1
  | forced => 2
  | «end» => 3
  | discontinuity => 4

/-- The request `infer` sends for a window. -/
def SpeechWindow.request (window : SpeechWindow) : InferenceWindow :=
  ⟨window.number, window.firstSample, window.firstNewSample, encodePcm window.samples,
    window.boundary.value + 1⟩

structure SpeechWorker where
  count : Nat
  «end» : Nat
  afterDiscontinuity : Bool
  afterEnd : Bool
  deriving DecidableEq, Inhabited

/-- What a worker stream is opened for, and its reply to the n-th window. -/
structure WorkerEnv where
  trackId : Nat
  producer : Producer
  serve : Nat → SpeechWindow → Except Failure (List TranscriptSegment × Option Bytes)

namespace SpeechWorker

def samples (input : InferenceWindow) : Nat := input.pcmF32le.length / 4

def validate (w : SpeechWorker) (input : InferenceWindow) : Except Failure Unit := do
  require (!w.afterEnd) .invalidArgument "audio after end boundary"
  require (w.count != 2 ^ 64 - 1 && input.windowNumber == w.count + 1) .invalidArgument
    "noncontiguous worker window number"
  require (input.pcmF32le != [] && input.pcmF32le.length % 4 == 0 &&
    input.pcmF32le.length ≤ maxWindowSamples * 4) .invalidArgument "invalid inference PCM size"
  require (input.firstSample ≤ 100000000000000) .invalidArgument "worker sample position exceeds limit"
  require (input.firstSample ≤ input.firstNewSample &&
    input.firstNewSample < input.firstSample + samples input) .invalidArgument
    "window contains no new audio or has invalid overlap"
  require (if w.count != 0 then input.firstNewSample == w.end
    else input.firstNewSample == input.firstSample) .invalidArgument
    "worker new-audio boundary is not contiguous"
  require (!w.afterDiscontinuity || input.firstSample == w.end) .invalidArgument
    "overlap crossed a discontinuity"
  require (1 ≤ input.boundary && input.boundary ≤ 5) .invalidArgument "invalid inference boundary"

theorem validate_ok {w : SpeechWorker} {input : InferenceWindow} (hEnd : w.afterEnd = false)
    (hCount : w.count ≠ 2 ^ 64 - 1) (hNumber : input.windowNumber = w.count + 1)
    (hSome : input.pcmF32le ≠ []) (hWhole : input.pcmF32le.length % 4 = 0)
    (hSize : input.pcmF32le.length ≤ maxWindowSamples * 4)
    (hPosition : input.firstSample ≤ 100000000000000)
    (hNew : input.firstSample ≤ input.firstNewSample ∧
      input.firstNewSample < input.firstSample + samples input)
    (hContiguous : if w.count = 0 then input.firstNewSample = input.firstSample
      else input.firstNewSample = w.end)
    (hRestart : w.afterDiscontinuity = true → input.firstSample = w.end)
    (hBoundary : 1 ≤ input.boundary ∧ input.boundary ≤ 5) : w.validate input = .ok () := by
  have hAcross : (!w.afterDiscontinuity || input.firstSample == w.end) = true := by
    cases hAfter : w.afterDiscontinuity with
    | false => rfl
    | true => simpa using hRestart hAfter
  have hNext : (if w.count != 0 then input.firstNewSample == w.end
      else input.firstNewSample == input.firstSample) = true := by
    by_cases hZero : w.count = 0
    · simpa [hZero] using hContiguous
    · simpa [hZero] using hContiguous
  have hBelow : (w.count != 2 ^ 64 - 1) = true := bne_iff_ne.mpr hCount
  have hFilled : (input.pcmF32le != []) = true := bne_iff_ne.mpr hSome
  unfold validate
  rw [hAcross, hNext, hBelow, hFilled, hEnd, hNumber, hWhole, decide_eq_true hSize,
    decide_eq_true hPosition, decide_eq_true hNew.1, decide_eq_true hNew.2,
    decide_eq_true hBoundary.1, decide_eq_true hBoundary.2]
  simp only [BEq.rfl, Bool.and_true, Bool.not_false, require_true]
  rfl

def received (input : InferenceWindow) : SpeechWindow :=
  ⟨input.windowNumber, input.firstSample, input.firstNewSample, .fixed, decodePcm input.pcmF32le⟩

def hypothesis (env : WorkerEnv) (input : InferenceWindow) (segments : List TranscriptSegment)
    (encoderContext : Option Bytes) : SpeechHypothesis :=
  { windowNumber := input.windowNumber
    trackId := env.trackId
    segments := segments
    firstSample := input.firstSample
    firstNewSample := input.firstNewSample
    sampleCount := samples input
    boundary := input.boundary
    producer := some env.producer
    contributors := []
    presentationTimeUs := none
    encoderContext := encoderContext }

def advance (w : SpeechWorker) (input : InferenceWindow) : SpeechWorker :=
  ⟨w.count + 1, input.firstSample + samples input, input.boundary == 5, input.boundary == 4⟩

def transcribe (env : WorkerEnv) (w : SpeechWorker) (input : InferenceWindow) :
    Except Failure (SpeechHypothesis × SpeechWorker) := do
  w.validate input
  let (segments, encoderContext) ← env.serve w.count (received input)
  return (hypothesis env input segments encoderContext, w.advance input)

theorem transcribe_ok {env : WorkerEnv} {w w' : SpeechWorker} {input : InferenceWindow}
    {h : SpeechHypothesis} (hOk : w.transcribe env input = .ok (h, w')) : w' = w.advance input := by
  unfold transcribe at hOk
  cases hValid : w.validate input with
  | error failure =>
    rw [hValid] at hOk
    cases hOk
  | ok =>
    rw [hValid] at hOk
    cases hServe : env.serve w.count (received input) with
    | error failure =>
      simp only [hServe] at hOk
      cases hOk
    | ok reply =>
      simp only [hServe] at hOk
      cases hOk
      rfl

def finish (w : SpeechWorker) (windowCount : Nat) : Except Failure Nat := do
  require (windowCount == w.count) .invalidArgument "worker finish count mismatch"
  return w.count

end SpeechWorker

end GrpcAsr.Media
