import GrpcAsr.Media.Reconcile
import GrpcAsr.Media.SpeechWorker
import GrpcAsr.Media.VoiceActivity

/-!
# The speech pipeline

`resolve` completes and checks the speech options of an opening request. A `Track` feeds
decoded audio through the window selection, sends each window to a worker stream and
passes the echoed hypothesis to the reconciler. A track reports what it does as a list of
actions, each with the state of the party that judges it.
-/

namespace GrpcAsr.Media

open Emitting

set_option autoImplicit false

def minimumAdvanceMs : Nat := 100

def sampleUs (sample : Nat) : Except Failure Int := do
  require (sample ≤ 100000000000000) .invalidArgument "speech timeline exceeds limit"
  return ((sample / 16000 * 1000000 + sample % 16000 * 1000000 / 16000 : Nat) : Int)

namespace SpeechOptions

def window (o : SpeechOptions) : SpeechWindowing := o.windowing.getD default

/-- Lengths are 32-bit: the products wrap. -/
def policy (o : SpeechOptions) : WindowPolicy :=
  let w := o.window
  let b := w.speechBoundary.getD default
  let ms := fun value : Nat => value * 16 % 2 ^ 32
  { targetSamples := ms (w.windowMs.getD 0)
    maxSamples := ms (if w.strategy = .speechAware then b.maxWindowMs else w.windowMs.getD 0)
    overlapSamples := ms (w.overlapMs.getD 0)
    minPauseSamples := ms b.minPauseMs
    paddingSamples := ms b.speechPaddingMs
    speechAware := w.strategy = .speechAware
    failWithoutPause := b.noPausePolicy = .fail }

def withDefaults (o : SpeechOptions) : SpeechOptions :=
  let o := if o.reconcileTranscript.isNone then { o with reconcileTranscript := some true } else o
  let o := if o.reconcileTranscript = some true then { o with wordTimestamps := true } else o
  let w := o.window
  { o with
    windowing := some
      { w with
        windowMs := some (w.windowMs.getD 10000)
        overlapMs := some (w.overlapMs.getD 1000)
        strategy := if w.strategy = .unspecified then .fixed else w.strategy }
    task := if o.task = .unspecified then .transcribe else o.task }

def checkBoundary (vadConfigured : Bool) (w : SpeechWindowing) : Except Failure Unit := do
  if w.strategy = .speechAware then
    let b := w.speechBoundary.getD default
    require (w.speechBoundary.isSome && b.vadModelId == ascii "silero-v5.1.2") .invalidArgument
      "qualified VAD model ID required"
    require vadConfigured .unimplemented "VAD weights are not configured"
    require (w.windowMs.getD 0 ≤ b.maxWindowMs && b.maxWindowMs ≤ 30000 && b.minPauseMs ≤ 30000 &&
      b.speechPaddingMs ≤ 15000 &&
      (b.noPausePolicy == .splitWithOverlap || b.noPausePolicy == .fail)) .invalidArgument
      "invalid speech pause policy"
  else
    require (w.strategy == .fixed && w.speechBoundary.isNone) .invalidArgument
      "invalid chunking strategy"

def resolve (vadConfigured : Bool) (o : SpeechOptions) : Except Failure SpeechOptions := do
  require (o.modelId != [] && o.modelId.length ≤ 256) .invalidArgument "speech model ID required"
  let o := o.withDefaults
  let w := o.window
  require (0 < w.windowMs.getD 0 && w.windowMs.getD 0 ≤ 30000 && w.overlapMs.getD 0 < w.windowMs.getD 0)
    .invalidArgument "invalid speech window durations"
  require (minimumAdvanceMs ≤ w.windowMs.getD 0 - w.overlapMs.getD 0) .invalidArgument
    "configured speech windows must advance by at least 100 ms"
  checkBoundary vadConfigured w
  match Windowing.create o.policy with
  | .ok _ => return o
  | .error (.invalidArgument what) => throw ⟨.invalidArgument, what⟩
  | .error _ => throw ⟨.internal, "speech window policy"⟩

/-- Resolved options have a policy the windows accept. -/
theorem resolve_policy {vadConfigured : Bool} {o resolved : SpeechOptions}
    (h : o.resolve vadConfigured = .ok resolved) : ∃ w, Windowing.create resolved.policy = .ok w := by
  unfold resolve at h
  obtain ⟨_, -, h⟩ := bind_eq_ok h
  obtain ⟨_, -, h⟩ := bind_eq_ok h
  obtain ⟨_, -, h⟩ := bind_eq_ok h
  obtain ⟨_, -, h⟩ := bind_eq_ok h
  split at h
  · rename_i w hWindows
    cases h
    exact ⟨w, hWindows⟩
  · cases h
  · cases h

end SpeechOptions

def OpenStream.resolve (vadConfigured : Bool) (request : OpenStream) : Except Failure OpenStream := do
  require (0 < request.speech.length && request.speech.length ≤ 4) .invalidArgument
    "one to four speech tasks are supported"
  let speech ← request.speech.mapM (SpeechOptions.resolve vadConfigured)
  return { request with speech := speech }

theorem OpenStream.resolve_speech {vadConfigured : Bool} {request resolved : OpenStream}
    (h : request.resolve vadConfigured = .ok resolved) {options : SpeechOptions}
    (hOptions : options ∈ resolved.speech) : ∃ o : SpeechOptions, o.resolve vadConfigured = .ok options := by
  unfold OpenStream.resolve at h
  obtain ⟨_, -, h⟩ := bind_eq_ok h
  obtain ⟨speech, hSpeech, h⟩ := bind_eq_ok h
  cases h
  obtain ⟨o, -, hOk⟩ := mem_mapM_ok hSpeech options hOptions
  exact ⟨o, hOk⟩

/-- One thing a track does, with the state of the party that has to accept it. -/
inductive TrackAction
  | sent (worker : SpeechWorker) (window : SpeechWindow) (input : InferenceWindow)
  | published (window : SpeechWindow) (h : SpeechHypothesis)
  | reconciled (reconciler : Reconciler) (h : SpeechHypothesis) (overlap : Nat)
  | closing (worker : SpeechWorker) (windowCount : Nat)

/-- The worker stream, the window selector's identity, the callback that takes the n-th raw
hypothesis, the reconciler's surroundings and the end of the worker stream. -/
structure TrackEnv where
  worker : WorkerEnv
  selector : Producer
  emit : Nat → SpeechHypothesis → Option Exception
  reconcile : ReconcileEnv
  close : Option Failure

structure Track (D : Detector) where
  listener : Listener D
  worker : SpeechWorker
  reconciler : Option Reconciler
  overlap : Nat
  track : Nat
  count : Nat
  samples : Nat
  chunks : Nat
  timeOffset : Option Int

abbrev TrackOutcome (D : Detector) := Outcome (Track D) TrackAction Exception

namespace Track

variable {D : Detector}

def create (D : Detector) (options : SpeechOptions) (track : Nat) : Except Exception (Track D) := do
  let windows ← Windowing.create options.policy
  return {
    listener := ⟨if options.window.strategy = .speechAware then some (.create D) else none, windows⟩
    worker := default
    reconciler := if options.reconcileTranscript = some true then some .initial else none
    overlap := options.policy.overlapSamples
    track := track
    count := 0
    samples := 0
    chunks := 0
    timeOffset := none }

def identifies (env : TrackEnv) (t : Track D) (window : SpeechWindow) (h : SpeechHypothesis) : Bool :=
  h.windowNumber == window.number && h.trackId == t.track && h.firstSample == window.firstSample &&
    h.firstNewSample == window.firstNewSample && h.boundary == window.boundary.value + 1 &&
    h.producer == some env.worker.producer && h.sampleCount == window.samples.length

def shiftToken (offset : Int) (token : SpeechToken) : SpeechToken :=
  { token with startUs := token.startUs.map (· + offset), endUs := token.endUs.map (· + offset) }

def shiftSegment (offset : Int) (segment : TranscriptSegment) : TranscriptSegment :=
  { segment with
    startUs := segment.startUs + offset
    endUs := segment.endUs + offset
    tokens := segment.tokens.map (shiftToken offset) }

/-- The echoed hypothesis on the source timeline, with the selector as a contributor. -/
def place (env : TrackEnv) (t : Track D) (window : SpeechWindow) (h : SpeechHypothesis) :
    Except Failure SpeechHypothesis := do
  let h ← match t.timeOffset with
    | none => pure h
    | some offset => do
      let start ← sampleUs window.firstSample
      pure { h with
        presentationTimeUs := some (start + offset)
        segments := h.segments.map (shiftSegment offset) }
  return { h with contributors := h.contributors ++ [env.selector] }

def suppliedOverlap (t : Track D) (window : SpeechWindow) : Nat :=
  if window.boundary = .fixed ∨ window.boundary = .forced then t.overlap else 0

def reconcile (env : TrackEnv) (t : Track D) (window : SpeechWindow) (h : SpeechHypothesis) :
    TrackOutcome D :=
  match t.reconciler with
  | none => ⟨{ t with count := t.count + 1 }, [], none⟩
  | some r =>
    let o := r.accept env.reconcile h (t.suppliedOverlap window)
    let t' := { t with reconciler := some o.state }
    let action := TrackAction.reconciled r h (t.suppliedOverlap window)
    match o.error with
    | some e => ⟨t', [action], some e⟩
    | none => ⟨{ t' with count := t.count + 1 }, [action], none⟩

/-- What follows the worker's reply: the raw hypothesis is published before any revision. -/
def receive (env : TrackEnv) (t : Track D) (window : SpeechWindow) (h : SpeechHypothesis) :
    TrackOutcome D :=
  if !t.identifies env window h then
    ⟨t, [], some (.failure ⟨.invalidArgument, "worker hypothesis identity mismatch"⟩)⟩
  else
    match t.place env window h with
    | .error failure => ⟨t, [], some (.failure failure)⟩
    | .ok h =>
      let action := TrackAction.published window h
      match env.emit t.count h with
      | some e => ⟨t, [action], some e⟩
      | none => (⟨t, [action], none⟩ : TrackOutcome D).next fun t => t.reconcile env window h

def infer (env : TrackEnv) (t : Track D) (window : SpeechWindow) : TrackOutcome D :=
  let action := TrackAction.sent t.worker window window.request
  match t.worker.transcribe env.worker window.request with
  | .error failure =>
    ⟨t, [action], some (.failure ⟨failure.code, "speech worker stream failed"⟩)⟩
  | .ok (h, worker) =>
    (⟨{ t with worker := worker }, [action], none⟩ : TrackOutcome D).next fun t =>
      t.receive env window h

/-- The window callback: each emitted window is inferred before the next sample is taken. -/
def inferAll (env : TrackEnv) (t : Track D) (o : ListenOutcome D) : TrackOutcome D :=
  (runAll (infer env) { t with listener := o.state } o.emitted).next fun t => ⟨t, [], o.error⟩

def refused (t : Track D) (message : String) : TrackOutcome D :=
  ⟨t, [], some (.failure ⟨.invalidArgument, message⟩)⟩

def cut (env : TrackEnv) (t : Track D) (chunk : AudioChunk) : TrackOutcome D :=
  if chunk.discontinuity then
    (t.inferAll env t.listener.discontinuity).next fun t => ⟨{ t with timeOffset := none }, [], none⟩
  else ⟨t, [], none⟩

def anchorTime (t : Track D) (chunk : AudioChunk) : TrackOutcome D :=
  match t.timeOffset, chunk.presentationTimeUs with
  | none, some time =>
    if time < -2 ^ 62 ∨ 2 ^ 62 < time then
      t.refused "source presentation timestamp exceeds limit"
    else
      match sampleUs chunk.firstSample with
      | .error failure => ⟨t, [], some (.failure failure)⟩
      | .ok start => ⟨{ t with timeOffset := some (time - start) }, [], none⟩
  | _, _ => ⟨t, [], none⟩

def listen (env : TrackEnv) (t : Track D) (chunk : AudioChunk) : TrackOutcome D :=
  (t.inferAll env (t.listener.append (decodePcm chunk.pcmF32le))).next fun t =>
    ⟨{ t with samples := t.samples + (decodePcm chunk.pcmF32le).length, chunks := t.chunks + 1 },
      [], none⟩

def translateLength : Exception → Exception
  | .lengthError _ => .failure ⟨.resourceExhausted, "no pause before speech window limit"⟩
  | e => e

def translate : Exception → Exception
  | .lengthError _ => .failure ⟨.resourceExhausted, "no pause before speech window limit"⟩
  | .invalidArgument _ => .failure ⟨.invalidArgument, "invalid decoded speech samples"⟩
  | e => e

def audio (env : TrackEnv) (t : Track D) (chunk : AudioChunk) : TrackOutcome D :=
  if !(chunk.sampleRate == 16000 && chunk.channels == 1 && chunk.pcmF32le.length % 4 == 0) then
    t.refused "pipeline requires mono 16 kHz float PCM"
  else if !(chunk.firstSample == t.samples && chunk.chunkNumber == t.chunks + 1) then
    t.refused "noncontiguous decoded speech audio"
  else
    let o := ((t.cut env chunk).next fun t => t.anchorTime chunk).next fun t => t.listen env chunk
    { o with error := o.error.map translate }

/-- The close of the worker stream, which accounts for its windows, and of the reconciler. -/
def close (env : TrackEnv) (t : Track D) : TrackOutcome D :=
  let action := TrackAction.closing t.worker t.count
  match t.worker.finish t.count with
  | .error failure => ⟨t, [action], some (.failure ⟨failure.code, "speech worker stream failed"⟩)⟩
  | .ok windowCount =>
    if windowCount ≠ t.count then
      ⟨t, [action], some (.failure ⟨.invalidArgument, "worker close accounting mismatch"⟩)⟩
    else
      match env.close with
      | some failure => ⟨t, [action], some (.failure ⟨failure.code, "speech worker failed at close"⟩)⟩
      | none =>
        match t.reconciler with
        | none => ⟨t, [action], none⟩
        | some r =>
          let o := r.finish env.reconcile
          ⟨{ t with reconciler := some o.state }, [action], o.error⟩

def finish (env : TrackEnv) (t : Track D) : TrackOutcome D :=
  let o := t.inferAll env t.listener.finish
  ({ o with error := o.error.map translateLength } : TrackOutcome D).next fun t => t.close env

end Track

end GrpcAsr.Media
