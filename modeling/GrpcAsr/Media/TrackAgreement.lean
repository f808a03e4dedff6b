import GrpcAsr.Media.Pipeline
import GrpcAsr.Media.ReconcileSteps
import GrpcAsr.Media.WindowProtocol

/-!
# Window selection, worker and reconciler agree

The worker and the reconciler both follow the regular stream of windows a track sends:
their counters are those of the windows so far. So each expected window passes the
worker's checks, and the echoed hypothesis passes the reconciler's.
-/

namespace GrpcAsr.Media

open Emitting

set_option autoImplicit false

/-- The party addressed accepts the action. -/
def TrackAction.Agrees : TrackAction → Prop
  | sent worker window input =>
    worker.validate input = .ok () ∧ decodePcm input.pcmF32le = window.samples
  | published _ _ => True
  | reconciled r h overlap => r.trackChanged h = false ∧ r.windowValid h overlap = true
  | closing worker windowCount => worker.finish windowCount = .ok windowCount

def Agreed (actions : List TrackAction) : Prop := ∀ action ∈ actions, action.Agrees

theorem Agreed.snoc {actions : List TrackAction} {action : TrackAction} (h : Agreed actions)
    (hAction : action.Agrees) : Agreed (actions ++ [action]) := by
  intro a ha
  rcases List.mem_append.mp ha with hOld | hNew
  · exact h a hOld
  · rw [List.mem_singleton.mp hNew]
    exact hAction

/-- The worker after a stream of windows. -/
def SpeechWorker.after (windows : List SpeechWindow) : SpeechWorker :=
  ⟨windows.length, lastEnd windows, windows.getLast?.any fun last => last.boundary = .discontinuity,
    windows.getLast?.any fun last => last.boundary = .end⟩

theorem SpeechWindow.request_samples (window : SpeechWindow) :
    SpeechWorker.samples window.request = window.samples.length := by
  rw [SpeechWorker.samples, SpeechWindow.request, encodePcm_length]
  omega

theorem SpeechWorker.advance_after (windows : List SpeechWindow) (window : SpeechWindow) :
    (SpeechWorker.after windows).advance window.request = SpeechWorker.after (windows ++ [window]) := by
  have hLast : (windows ++ [window]).getLast? = some window := List.getLast?_concat
  simp only [SpeechWorker.advance, SpeechWorker.after, hLast, window.request_samples, lastEnd_snoc,
    List.length_append, List.length_singleton, Option.any_some]
  cases hBoundary : window.boundary <;> simp [SpeechWindow.request, SpeechWindow.end, hBoundary,
    WindowBoundary.value]

/-- Every window brings at least one new sample. -/
theorem Regular.length_le {policy : WindowPolicy} {windows : List SpeechWindow}
    (h : Regular policy windows) : windows.length ≤ lastEnd windows := by
  induction h with
  | nil => exact Nat.le_refl _
  | snoc h hNext ih =>
    have hStart := hNext.start
    have hBounds := hNext.bounds
    rw [List.length_append, List.length_singleton, lastEnd_snoc]
    omega

theorem Expected.validate {policy : WindowPolicy} {windows : List SpeechWindow}
    {window : SpeechWindow} (h : Expected policy windows window) (hRegular : Regular policy windows) :
    (SpeechWorker.after windows).validate window.request = .ok () := by
  have hCount := hRegular.length_le
  have hStart := h.start
  have hBounds := h.bounds
  have hPosition : window.firstSample ≤ 100000000000000 := h.position
  have hSize := h.size
  have hLength := encodePcm_length window.samples
  simp only [SpeechWindow.end] at hBounds
  have hFilled : 0 < window.samples.length := by omega
  refine SpeechWorker.validate_ok ?_ ?_ h.number ?_ ?_ ?_ hPosition ?_ ?_ ?_ ?_
  · simp only [SpeechWorker.after, Option.any_eq_false]
    intro last hLast
    simpa using h.unended last hLast
  · simp only [SpeechWorker.after]
    omega
  · rw [← List.length_pos_iff]
    simp only [SpeechWindow.request]
    omega
  · simp only [SpeechWindow.request]
    omega
  · simp only [SpeechWindow.request, maxWindowSamples]
    omega
  · rw [window.request_samples]
    exact hBounds
  · split
    · rename_i hNone
      have hEmpty : windows = [] := List.eq_nil_of_length_eq_zero hNone
      rw [hEmpty, lastEnd_nil] at hStart
      simp only [SpeechWindow.request]
      omega
    · exact hStart
  · intro hAfter
    simp only [SpeechWorker.after, Option.any_eq_true, decide_eq_true_eq] at hAfter
    obtain ⟨last, hLast, hBoundary⟩ := hAfter
    rw [SpeechWindow.request]
    simp only [h.restart last hLast hBoundary, SpeechWorker.after, lastEnd, hLast]
    rfl
  · cases hBoundary : window.boundary <;>
      simp [SpeechWindow.request, hBoundary, WindowBoundary.value]

namespace Track

variable {D : Detector}

/-- The counter and the reconciler of a track stand where its windows so far have brought them. -/
structure Counted (policy : WindowPolicy) (t : Track D) (windows : List SpeechWindow) : Prop where
  count : t.count = windows.length
  overlap : t.overlap = policy.overlapSamples
  window : ∀ r, t.reconciler = some r → r.window = windows.length
  position : ∀ r, t.reconciler = some r → windows ≠ [] →
    r.endSample = lastEnd windows ∧ r.track = t.track

structure Synced (policy : WindowPolicy) (t : Track D) (windows : List SpeechWindow) : Prop extends
    Counted policy t windows where
  worker : t.worker = .after windows

variable {policy : WindowPolicy} {t : Track D} {windows : List SpeechWindow} {window : SpeechWindow}

/-- The hypothesis handed to the reconciler is at the position of its window. -/
structure Places (t : Track D) (window : SpeechWindow) (h : SpeechHypothesis) : Prop where
  number : h.windowNumber = window.number
  track : h.trackId = t.track
  first : h.firstSample = window.firstSample
  new : h.firstNewSample = window.firstNewSample
  count : h.sampleCount = window.samples.length

theorem place_places {env : TrackEnv} {h placed : SpeechHypothesis}
    (hIdentifies : t.identifies env window h = true) (hPlace : t.place env window h = .ok placed) :
    Places t window placed := by
  simp only [identifies, Bool.and_eq_true, beq_iff_eq] at hIdentifies
  obtain ⟨⟨⟨⟨⟨⟨hNumber, hTrack⟩, hFirst⟩, hNew⟩, -⟩, -⟩, hCount⟩ := hIdentifies
  unfold place at hPlace
  cases hOffset : t.timeOffset with
  | none =>
    rw [hOffset] at hPlace
    cases hPlace
    exact ⟨hNumber, hTrack, hFirst, hNew, hCount⟩
  | some offset =>
    rw [hOffset] at hPlace
    cases hStart : sampleUs window.firstSample with
    | error failure =>
      rw [hStart] at hPlace
      cases hPlace
    | ok start =>
      rw [hStart] at hPlace
      cases hPlace
      exact ⟨hNumber, hTrack, hFirst, hNew, hCount⟩

theorem Counted.windowValid (hCounted : Counted policy t windows) (hNext : Expected policy windows window)
    {r : Reconciler} (hReconciler : t.reconciler = some r) {h : SpeechHypothesis}
    (hPlaces : Places t window h) :
    r.trackChanged h = false ∧ r.windowValid h (t.suppliedOverlap window) = true := by
  have hWindow := hCounted.window r hReconciler
  have hBounds := hNext.bounds
  have hStart := hNext.start
  have hPosition : window.firstSample ≤ 100000000000000 := hNext.position
  have hSize := hNext.size
  have hNumber := hNext.number
  have hOverlap : t.suppliedOverlap window < window.samples.length := by
    unfold suppliedOverlap
    split
    · rename_i hCut
      rw [hCounted.overlap]
      exact hNext.overlap hCut
    · simp only [SpeechWindow.end] at hBounds
      omega
  simp only [SpeechWindow.end] at hBounds
  refine ⟨?_, ?_⟩
  · simp only [Reconciler.trackChanged, Bool.and_eq_false_iff, bne_eq_false_iff_eq, hPlaces.track]
    by_cases hEmpty : windows = []
    · exact Or.inl (by rw [hWindow, hEmpty, List.length_nil])
    · exact Or.inr (hCounted.position r hReconciler hEmpty).2.symm
  · simp only [Reconciler.windowValid, hPlaces.number, hPlaces.first, hPlaces.new, hPlaces.count,
      hWindow, hNumber, Bool.and_eq_true, Bool.or_eq_true, beq_iff_eq, bne_iff_ne, decide_eq_true_eq]
    refine ⟨⟨⟨⟨⟨⟨⟨⟨trivial, by omega⟩, hSize⟩, hPosition⟩, hOverlap⟩, hBounds.1⟩, hBounds.2⟩, ?_⟩, ?_⟩
    · by_cases hEmpty : windows = []
      · exact Or.inl (by rw [hEmpty, List.length_nil])
      · exact Or.inr (hStart.trans (hCounted.position r hReconciler hEmpty).1.symm)
    · by_cases hEmpty : windows = []
      · rw [hEmpty, lastEnd_nil] at hStart
        exact Or.inr (by omega)
      · exact Or.inl (fun hZero => hEmpty (List.eq_nil_of_length_eq_zero hZero))

variable {env : TrackEnv} {actions : List TrackAction}

/-- What a successful step over one more window establishes. -/
def Took (policy : WindowPolicy) (l : Listener D) (windows : List SpeechWindow) (t : Track D)
    (actions : List TrackAction) : Prop :=
  Synced policy t windows ∧ t.listener = l ∧ Agreed actions

theorem Counted.reconcile (hCounted : Counted policy t windows)
    (hWorker : t.worker = .after (windows ++ [window])) (hNext : Expected policy windows window)
    {h : SpeechHypothesis} (hPlaces : Places t window h) (hAgreed : Agreed actions) :
    Ensures actions (t.reconcile env window h) (Took policy t.listener (windows ++ [window])) Agreed := by
  have hCount : t.count + 1 = (windows ++ [window]).length := by
    rw [hCounted.count, List.length_append, List.length_singleton]
  unfold Track.reconcile
  cases hReconciler : t.reconciler with
  | none =>
    refine Ensures.return_ ⟨⟨⟨hCount, hCounted.overlap, ?_, ?_⟩, hWorker⟩, rfl, hAgreed⟩
    · intro r hr
      cases hr
    · intro r hr
      cases hr
  | some r =>
    have hAgrees : (TrackAction.reconciled r h (t.suppliedOverlap window)).Agrees :=
      hCounted.windowValid hNext hReconciler hPlaces
    have hTurned := r.accept_turned env.reconcile h (t.suppliedOverlap window)
    dsimp only
    cases hError : (r.accept env.reconcile h (t.suppliedOverlap window)).error with
    | some e =>
      exact ⟨fun hNone => absurd hNone (Option.some_ne_none e), fun _ => hAgreed.snoc hAgrees⟩
    | none =>
      obtain ⟨hWindow, hTrack, hEnd⟩ := hTurned.done hError
      refine ⟨fun _ => ⟨⟨⟨hCount, hCounted.overlap, ?_, ?_⟩, hWorker⟩, rfl, hAgreed.snoc hAgrees⟩,
        fun hFail => absurd rfl hFail⟩
      · intro r' hr'
        cases hr'
        rw [hWindow, hCounted.window r hReconciler, List.length_append, List.length_singleton]
      · intro r' hr' _
        cases hr'
        rw [hEnd, hTrack, hPlaces.first, hPlaces.count, lastEnd_snoc]
        exact ⟨rfl, hPlaces.track⟩

theorem Counted.receive (hCounted : Counted policy t windows)
    (hWorker : t.worker = .after (windows ++ [window])) (hNext : Expected policy windows window)
    (h : SpeechHypothesis) (hAgreed : Agreed actions) :
    Ensures actions (t.receive env window h) (Took policy t.listener (windows ++ [window])) Agreed := by
  unfold Track.receive
  cases hIdentifies : t.identifies env window h with
  | false => exact Ensures.throw hAgreed
  | true =>
    simp only [Bool.not_true, Bool.false_eq_true, if_false]
    cases hPlace : t.place env window h with
    | error failure => exact Ensures.throw hAgreed
    | ok placed =>
      have hPublished : Agreed (actions ++ [TrackAction.published window placed]) :=
        hAgreed.snoc trivial
      dsimp only
      cases env.emit t.count placed with
      | some e => exact ⟨fun hNone => absurd hNone (Option.some_ne_none e), fun _ => hPublished⟩
      | none =>
        refine Ensures.next (Q := fun t' actions' => t' = t ∧ Agreed actions')
          ⟨fun _ => ⟨rfl, hPublished⟩, fun hFail => absurd rfl hFail⟩ ?_
        rintro t' actions' ⟨rfl, hAgreed'⟩
        exact hCounted.reconcile hWorker hNext (place_places hIdentifies hPlace) hAgreed'

theorem Synced.infer (hSynced : Synced policy t windows) (hRegular : Regular policy windows)
    (hNext : Expected policy windows window) (hAgreed : Agreed actions) :
    Ensures actions (t.infer env window) (Took policy t.listener (windows ++ [window])) Agreed := by
  have hSent : (TrackAction.sent t.worker window window.request).Agrees := by
    rw [hSynced.worker]
    exact ⟨hNext.validate hRegular, decodePcm_encodePcm window.samples⟩
  unfold Track.infer
  dsimp only
  cases hReply : t.worker.transcribe env.worker window.request with
  | error failure =>
    exact ⟨fun hNone => absurd hNone (Option.some_ne_none _), fun _ => hAgreed.snoc hSent⟩
  | ok reply =>
    obtain ⟨h, worker⟩ := reply
    have hAdvance : worker = .after (windows ++ [window]) := by
      rw [SpeechWorker.transcribe_ok hReply, hSynced.worker, SpeechWorker.advance_after]
    refine Ensures.next (Q := fun t' actions' => t' = { t with worker := worker } ∧ Agreed actions')
      ⟨fun _ => ⟨rfl, hAgreed.snoc hSent⟩, fun hFail => absurd rfl hFail⟩ ?_
    rintro t' actions' ⟨rfl, hAgreed'⟩
    have hCounted : Counted policy { t with worker := worker } windows := { hSynced.toCounted with }
    exact hCounted.receive hAdvance hNext h hAgreed'

theorem Synced.inferAll (hSynced : Synced policy t windows) {o : ListenOutcome D}
    (hRegular : Regular policy (windows ++ o.emitted)) (hAgreed : Agreed actions) :
    Ensures actions (t.inferAll env o)
      (fun t' actions' => o.error = none ∧ Took policy o.state (windows ++ o.emitted) t' actions')
      Agreed := by
  have hStart : Took policy o.state (windows ++ []) { t with listener := o.state } actions := by
    rw [List.append_nil]
    exact ⟨{ hSynced with }, rfl, hAgreed⟩
  refine Ensures.next (Ensures.runAll
    (P := fun done t' actions' => Took policy o.state (windows ++ done) t' actions') ?_ hStart) ?_
  · rintro before x after t' actions' hSplit ⟨hBefore, hListener, hAgreed'⟩
    rw [hSplit, ← List.append_assoc] at hRegular
    rw [← List.append_assoc, ← hListener]
    exact hBefore.infer hRegular.before hRegular.expected hAgreed'
  · intro t' actions' hTook
    cases hError : o.error with
    | none => exact Ensures.return_ ⟨rfl, hTook⟩
    | some e => exact Ensures.throw hTook.2.2

/-- A track that was given at most `n` samples. -/
def Runs (policy : WindowPolicy) (n : Nat) (t : Track D) (actions : List TrackAction) : Prop :=
  ∃ windows, t.listener.Listens policy n windows ∧ Synced policy t windows ∧ Agreed actions

theorem Synced.listens {n m : Nat} (hSynced : Synced policy t windows) {o : ListenOutcome D}
    (hListens : Ensures windows o (Listener.Listens policy n) (Regular policy))
    (hAgreed : Agreed actions) (hLe : n ≤ m) :
    Ensures actions (t.inferAll env o) (Runs policy m) Agreed := by
  have hRegular : Regular policy (windows ++ o.emitted) :=
    hListens.always fun _ _ hHeard => hHeard.regular
  refine (hSynced.inferAll hRegular hAgreed).imp ?_
  rintro t' actions' ⟨hOk, hTook, hListener, hAgreed'⟩
  refine ⟨windows ++ o.emitted, ?_, hTook, hAgreed'⟩
  rw [hListener]
  exact (hListens.done hOk).mono hLe

theorem Ensures.translated {o : TrackOutcome D} {Q : Track D → List TrackAction → Prop}
    (h : Ensures actions o Q Agreed) (f : Exception → Exception) :
    Ensures actions ({ o with error := o.error.map f } : TrackOutcome D) Q Agreed :=
  ⟨fun hNone => h.done (by simpa using hNone), fun hFail => h.failed (by simpa using hFail)⟩

theorem Runs.cut {n : Nat} (h : Runs policy n t actions) (env : TrackEnv) (chunk : AudioChunk) (hn : n ≤ sampleLimit) :
    Ensures actions (t.cut env chunk) (Runs policy n) Agreed := by
  obtain ⟨windows, hListens, hSynced, hAgreed⟩ := h
  unfold Track.cut
  split
  · refine Ensures.next (hSynced.listens (hListens.discontinuity hn) hAgreed (Nat.le_refl _)) ?_
    rintro t' actions' ⟨windows', hListens', hSynced', hAgreed'⟩
    exact Ensures.return_ ⟨windows', hListens', { hSynced' with }, hAgreed'⟩
  · exact Ensures.return_ ⟨windows, hListens, hSynced, hAgreed⟩

theorem Runs.anchorTime {n : Nat} (h : Runs policy n t actions) (chunk : AudioChunk) :
    Ensures actions (t.anchorTime chunk) (Runs policy n) Agreed := by
  obtain ⟨windows, hListens, hSynced, hAgreed⟩ := h
  unfold Track.anchorTime
  split
  · split
    · exact Ensures.throw hAgreed
    · split
      · exact Ensures.throw hAgreed
      · exact Ensures.return_ ⟨windows, hListens, { hSynced with }, hAgreed⟩
  · exact Ensures.return_ ⟨windows, hListens, hSynced, hAgreed⟩

theorem Runs.listen {n : Nat} (h : Runs policy n t actions) (chunk : AudioChunk)
    (hn : n + chunk.pcmF32le.length / 4 ≤ sampleLimit) :
    Ensures actions (t.listen env chunk) (Runs policy (n + chunk.pcmF32le.length / 4)) Agreed := by
  obtain ⟨windows, hListens, hSynced, hAgreed⟩ := h
  rw [← decodePcm_length] at hn ⊢
  refine Ensures.next (hSynced.listens (hListens.append hn) hAgreed (Nat.le_refl _)) ?_
  rintro t' actions' ⟨windows', hListens', hSynced', hAgreed'⟩
  exact Ensures.return_ ⟨windows', hListens', { hSynced' with }, hAgreed'⟩

theorem Runs.audio {n : Nat} (h : Runs policy n t actions) (env : TrackEnv) (chunk : AudioChunk)
    (hn : n + chunk.pcmF32le.length / 4 ≤ sampleLimit) :
    Ensures actions (t.audio env chunk) (Runs policy (n + chunk.pcmF32le.length / 4)) Agreed := by
  have hAgreed : Agreed actions := by
    obtain ⟨-, -, -, hAgreed⟩ := h
    exact hAgreed
  unfold Track.audio
  split
  · exact Ensures.throw hAgreed
  · split
    · exact Ensures.throw hAgreed
    · have hTimed := Ensures.next (h.cut env chunk (by omega))
        fun t' actions' h' => h'.anchorTime chunk
      exact Ensures.translated (hTimed.next fun t' actions' h' => h'.listen chunk hn) translate

theorem close_emitted (t : Track D) (env : TrackEnv) :
    (t.close env).emitted = [.closing t.worker t.count] := by
  unfold Track.close
  dsimp only
  split
  · rfl
  · split
    · rfl
    · split
      · rfl
      · split <;> rfl

theorem Runs.finish {n : Nat} (h : Runs policy n t actions) (env : TrackEnv) (hn : n ≤ sampleLimit) :
    Ensures actions (t.finish env) (fun _ => Agreed) Agreed := by
  obtain ⟨windows, hListens, hSynced, hAgreed⟩ := h
  unfold Track.finish
  dsimp only
  refine Ensures.next (Ensures.translated
    (hSynced.inferAll (hListens.finish hn) hAgreed) translateLength) ?_
  rintro t' actions' ⟨-, hSynced', -, hAgreed'⟩
  have hClosing : (TrackAction.closing t'.worker t'.count).Agrees := by
    rw [hSynced'.worker, hSynced'.count]
    simp [TrackAction.Agrees, SpeechWorker.finish, SpeechWorker.after]
  refine ⟨fun _ => ?_, fun _ => ?_⟩
  · rw [close_emitted]
    exact hAgreed'.snoc hClosing
  · rw [close_emitted]
    exact hAgreed'.snoc hClosing

def sampleCount (chunk : AudioChunk) : Nat := chunk.pcmF32le.length / 4

theorem Runs.run (h : Runs policy 0 t actions) (env : TrackEnv) (chunks : List AudioChunk)
    (hLimit : (chunks.map sampleCount).sum ≤ sampleLimit) :
    Ensures actions (runAll (Track.audio env) t chunks) (Runs policy (chunks.map sampleCount).sum)
      Agreed := by
  refine Ensures.runAll (P := fun done t' actions' => Runs policy (done.map sampleCount).sum t' actions')
    ?_ h
  intro before chunk after t' actions' hSplit hBefore
  rw [hSplit, List.map_append, List.sum_append, List.map_cons, List.sum_cons] at hLimit
  rw [List.map_append, List.sum_append, List.map_singleton, List.sum_singleton]
  exact hBefore.audio env chunk (by rw [← sampleCount]; omega)

theorem Runs.create {options : SpeechOptions} {track : Nat} {t : Track D}
    {w : Windowing} (hWindows : Windowing.create options.policy = .ok w)
    (h : Track.create D options track = .ok t) : Runs options.policy 0 t [] := by
  have hPolicy : w.policy = options.policy := by
    obtain ⟨-, -, rfl⟩ := Windowing.create_eq_ok hWindows
    rfl
  rw [Track.create, hWindows] at h
  cases h
  refine ⟨[], ⟨0, ?_, Ready.initial hWindows, hPolicy⟩, ⟨⟨rfl, rfl, ?_, ?_⟩, rfl⟩, by simp [Agreed]⟩
  · simp only [Listener.held]
    split
    · rename_i v hVad
      split at hVad
      · cases hVad
        simp [VoiceActivity.create]
      · cases hVad
    · simp
  · intro r hr
    simp only [Option.ite_none_right_eq_some, Option.some.injEq] at hr
    rw [← hr.2]
    rfl
  · intro r hr hSome
    exact absurd rfl hSome

end Track

/-- For options that `resolve` accepts a track can be opened, and while sample positions stay
within the limit everything it sends is accepted by the party that receives it. -/
theorem window_protocol_agrees {vadConfigured : Bool} {request resolved : OpenStream}
    (hResolve : request.resolve vadConfigured = .ok resolved) {options : SpeechOptions}
    (hOptions : options ∈ resolved.speech) (D : Detector) (track : Nat) :
    ∃ t : Track D, Track.create D options track = .ok t ∧
      ∀ (env : TrackEnv) (chunks : List AudioChunk),
        (chunks.map Track.sampleCount).sum ≤ sampleLimit →
        ∀ action ∈ ((runAll (Track.audio env) t chunks).next (Track.finish env)).emitted,
          action.Agrees := by
  obtain ⟨o, hResolved⟩ := OpenStream.resolve_speech hResolve hOptions
  obtain ⟨w, hWindows⟩ := SpeechOptions.resolve_policy hResolved
  have hCreate : ∃ t, Track.create D options track = .ok t := by
    rw [Track.create, hWindows]
    exact ⟨_, rfl⟩
  obtain ⟨t, ht⟩ := hCreate
  refine ⟨t, ht, fun env chunks hLimit action hAction => ?_⟩
  have hRun := (Track.Runs.create hWindows ht).run env chunks hLimit
  have hAll := hRun.next fun t' actions h' => h'.finish env hLimit
  have hAgreed : Agreed ([] ++ ((runAll (Track.audio env) t chunks).next (Track.finish env)).emitted) :=
    hAll.always fun _ _ hDone => hDone
  exact hAgreed action (by simpa using hAction)

/-- A detector that hears no speech, and a worker that recognises none. -/
def silent : Detector := ⟨Unit, (), fun _ _ => ((), some [some 0]), id⟩

def silentEnv : TrackEnv where
  worker := ⟨1, default, fun _ _ => .ok ([], none)⟩
  selector := default
  emit := fun _ _ => none
  reconcile := quietEnv
  close := none

def speechRequest : OpenStream :=
  { (default : OpenStream) with speech := [{ (default : SpeechOptions) with modelId := ascii "tiny" }] }

def resolvedOptions : SpeechOptions :=
  SpeechOptions.withDefaults { (default : SpeechOptions) with modelId := ascii "tiny" }

def twoSamples : AudioChunk :=
  { (default : AudioChunk) with
    chunkNumber := 1, sampleRate := 16000, channels := 1, pcmF32le := List.replicate 8 0 }

theorem window_protocol_agrees_silent :
    ∃ t : Track silent, Track.create silent resolvedOptions 1 = .ok t ∧
      ∀ action ∈ ((runAll (Track.audio silentEnv) t [twoSamples]).next (Track.finish silentEnv)).emitted,
        action.Agrees := by
  obtain ⟨t, hCreate, hAgrees⟩ := @window_protocol_agrees false speechRequest
    { speechRequest with speech := [resolvedOptions] } rfl resolvedOptions List.mem_cons_self silent 1
  exact ⟨t, hCreate, hAgrees silentEnv [twoSamples] (by decide)⟩

end GrpcAsr.Media
