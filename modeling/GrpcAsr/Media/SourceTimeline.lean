import GrpcAsr.Media.ContinuityWindows
import GrpcAsr.Media.TrackAgreement

/-!
# The source timeline of speech results

Every discontinuity opens a continuity run, and the first timestamp of a run places its
samples on the source timeline. `Stage` names the audio that had arrived when a track did
something: the windows that a flagged chunk flushes precede its arrival. Each published
hypothesis is on the timeline of the run that its window was cut from.
-/

namespace GrpcAsr.Media

open Emitting

set_option autoImplicit false

/-- The chunks of the run that the last of the arrived chunks is in. -/
def continuity (arrived : List AudioChunk) : List AudioChunk :=
  arrived.foldl (fun run chunk => if chunk.discontinuity then [chunk] else run ++ [chunk]) []

def audioOf (arrived : List AudioChunk) : List Sample :=
  arrived.flatMap fun chunk => decodePcm chunk.pcmF32le

def runStart (arrived : List AudioChunk) : Nat :=
  (audioOf arrived).length - (audioOf (continuity arrived)).length

def AudioChunk.sourceOffset (chunk : AudioChunk) : Option Int :=
  chunk.presentationTimeUs.map (· - micros chunk.firstSample)

def runOffset (arrived : List AudioChunk) : Option Int :=
  (continuity arrived).findSome? AudioChunk.sourceOffset

theorem continuity_snoc (before : List AudioChunk) (chunk : AudioChunk) :
    continuity (before ++ [chunk]) =
      if chunk.discontinuity then [chunk] else continuity before ++ [chunk] := by
  rw [continuity, List.foldl_append]
  rfl

theorem audioOf_snoc (before : List AudioChunk) (chunk : AudioChunk) :
    audioOf (before ++ [chunk]) = audioOf before ++ decodePcm chunk.pcmF32le := by
  simp [audioOf]

theorem runStart_snoc (before : List AudioChunk) (chunk : AudioChunk) :
    runStart (before ++ [chunk]) =
      if chunk.discontinuity then (audioOf before).length else runStart before := by
  simp only [runStart, continuity_snoc, audioOf_snoc, List.length_append]
  split
  · have hOnly : audioOf [chunk] = decodePcm chunk.pcmF32le := audioOf_snoc [] chunk
    rw [hOnly, Nat.add_sub_cancel]
  · rw [audioOf_snoc, List.length_append, Nat.add_sub_add_right]

theorem runOffset_snoc (before : List AudioChunk) (chunk : AudioChunk) :
    runOffset (before ++ [chunk]) =
      ((if chunk.discontinuity then none else runOffset before).or chunk.sourceOffset) := by
  rw [runOffset, continuity_snoc]
  split
  · simp
  · rw [List.findSome?_append, runOffset]
    simp

structure ShiftedToken (offset : Int) (token shifted : SpeechToken) : Prop where
  start : shifted.startUs = token.startUs.map (· + offset)
  «end» : shifted.endUs = token.endUs.map (· + offset)

structure Shifted (offset : Int) (segment shifted : TranscriptSegment) : Prop where
  start : shifted.startUs = segment.startUs + offset
  «end» : shifted.endUs = segment.endUs + offset
  tokens : List.Forall₂ (ShiftedToken offset) segment.tokens shifted.tokens

/-- The worker's reply to the window, moved by the offset where there is one. -/
def Timed (env : TrackEnv) (offset : Option Int) (window : SpeechWindow) (h : SpeechHypothesis) : Prop :=
  ∃ worker reply worker', SpeechWorker.transcribe env.worker worker window.request = .ok (reply, worker') ∧
    h.presentationTimeUs = offset.map (micros window.firstSample + ·) ∧
    List.Forall₂ (Shifted (offset.getD 0)) reply.segments h.segments

/-- What is sent and published lies within the run that starts at `start`. -/
def TrackAction.Dated (env : TrackEnv) (audio : List Sample) (start : Nat) (offset : Option Int) :
    TrackAction → Prop
  | sent _ window input => Spans audio start window ∧ input = window.request
  | published window h => Spans audio start window ∧ Timed env offset window h
  | reconciled _ _ _ => True
  | closing _ _ => True

theorem shiftSegment_shifted (offset : Int) (segment : TranscriptSegment) :
    Shifted offset segment (Track.shiftSegment offset segment) where
  start := rfl
  «end» := rfl
  tokens := List.forall₂_map_right_iff.mpr (List.forall₂_same.mpr fun _ _ => ⟨rfl, rfl⟩)

theorem Shifted.zero (segment : TranscriptSegment) : Shifted 0 segment segment where
  start := (Int.add_zero _).symm
  «end» := (Int.add_zero _).symm
  tokens := List.forall₂_same.mpr fun token _ => ⟨by simp, by simp⟩

theorem sampleUs_eq_ok {sample : Nat} {us : Int} (h : sampleUs sample = .ok us) : us = micros sample := by
  unfold sampleUs at h
  obtain ⟨_, -, h⟩ := bind_eq_ok h
  cases h
  rfl

namespace SpeechWorker

theorem transcribe_reply {env : WorkerEnv} {w w' : SpeechWorker} {input : InferenceWindow}
    {h : SpeechHypothesis} (hOk : w.transcribe env input = .ok (h, w')) : h.presentationTimeUs = none := by
  unfold transcribe at hOk
  obtain ⟨_, -, hOk⟩ := bind_eq_ok hOk
  obtain ⟨⟨segments, encoderContext⟩, -, hOk⟩ := bind_eq_ok hOk
  cases hOk
  rfl

end SpeechWorker

namespace Track

variable {D : Detector} {env : TrackEnv} {audio : List Sample} {start : Nat} {offset : Option Int}

def Dated (env : TrackEnv) (audio : List Sample) (start : Nat) (offset : Option Int)
    (actions : List TrackAction) : Prop :=
  ∀ action ∈ actions, action.Dated env audio start offset

theorem Dated.snoc {actions : List TrackAction} {action : TrackAction}
    (h : Dated env audio start offset actions) (hAction : action.Dated env audio start offset) :
    Dated env audio start offset (actions ++ [action]) :=
  List.forall_mem_append.mpr ⟨h, List.forall_mem_singleton.mpr hAction⟩

theorem place_timed {t : Track D} {window : SpeechWindow} {worker worker' : SpeechWorker}
    {reply h : SpeechHypothesis}
    (hReply : worker.transcribe env.worker window.request = .ok (reply, worker'))
    (hPlace : t.place env window reply = .ok h) : Timed env t.timeOffset window h := by
  refine ⟨worker, reply, worker', hReply, ?_⟩
  unfold place at hPlace
  cases hOffset : t.timeOffset with
  | none =>
    rw [hOffset] at hPlace
    cases hPlace
    have hNone := SpeechWorker.transcribe_reply hReply
    exact ⟨hNone, List.forall₂_same.mpr fun segment _ => .zero segment⟩
  | some offset =>
    rw [hOffset] at hPlace
    cases hStart : sampleUs window.firstSample with
    | error failure =>
      rw [hStart] at hPlace
      cases hPlace
    | ok us =>
      rw [hStart] at hPlace
      cases hPlace
      refine ⟨?_, List.forall₂_map_right_iff.mpr (List.forall₂_same.mpr fun segment _ => ?_)⟩
      · rw [sampleUs_eq_ok hStart, Option.map_some]
      · exact shiftSegment_shifted offset segment

/-- While windows are inferred, the listener and the offset stay as they are. -/
structure Infers (env : TrackEnv) (audio : List Sample) (start : Nat) (offset : Option Int)
    (l : Listener D) (t : Track D) (actions : List TrackAction) : Prop where
  dated : Dated env audio start offset actions
  listener : t.listener = l
  offset : t.timeOffset = offset

section Inference

variable {l : Listener D} {t : Track D} {actions : List TrackAction} {window : SpeechWindow}

theorem Infers.reconcile (h : Infers env audio start offset l t actions) (window : SpeechWindow)
    (hypothesis : SpeechHypothesis) :
    Ensures actions (t.reconcile env window hypothesis) (Infers env audio start offset l)
      (Dated env audio start offset) := by
  unfold Track.reconcile
  split
  · exact Ensures.return_ { h with }
  · dsimp only
    split
    · exact ⟨fun hNone => absurd hNone (Option.some_ne_none _), fun _ => h.dated.snoc trivial⟩
    · exact ⟨fun _ => { h with dated := h.dated.snoc trivial }, fun hFail => absurd rfl hFail⟩

theorem Infers.receive (h : Infers env audio start offset l t actions)
    (hSpans : Spans audio start window) {worker worker' : SpeechWorker} {reply : SpeechHypothesis}
    (hReply : worker.transcribe env.worker window.request = .ok (reply, worker')) :
    Ensures actions (t.receive env window reply) (Infers env audio start offset l)
      (Dated env audio start offset) := by
  unfold Track.receive
  split
  · exact Ensures.throw h.dated
  · split
    · exact Ensures.throw h.dated
    · rename_i placed hPlace
      have hTimed := place_timed hReply hPlace
      rw [h.offset] at hTimed
      have hPublished : Dated env audio start offset (actions ++ [.published window placed]) :=
        h.dated.snoc ⟨hSpans, hTimed⟩
      dsimp only
      split
      · exact ⟨fun hNone => absurd hNone (Option.some_ne_none _), fun _ => hPublished⟩
      · refine Ensures.next (Q := Infers env audio start offset l)
          ⟨fun _ => { h with dated := hPublished }, fun hFail => absurd rfl hFail⟩ ?_
        exact fun t' actions' h' => h'.reconcile window placed

theorem Infers.infer (h : Infers env audio start offset l t actions) (hSpans : Spans audio start window) :
    Ensures actions (t.infer env window) (Infers env audio start offset l)
      (Dated env audio start offset) := by
  have hSent : Dated env audio start offset (actions ++ [.sent t.worker window window.request]) :=
    h.dated.snoc ⟨hSpans, rfl⟩
  unfold Track.infer
  dsimp only
  split
  · exact ⟨fun hNone => absurd hNone (Option.some_ne_none _), fun _ => hSent⟩
  · rename_i reply worker hReply
    refine Ensures.next (Q := Infers env audio start offset l)
      ⟨fun _ => { h with dated := hSent }, fun hFail => absurd rfl hFail⟩ ?_
    exact fun t' actions' h' => h'.receive hSpans hReply

/-- The windows of one call of the listener, inferred under the offset the track has now. -/
theorem inferAll_dated (env : TrackEnv) {o : ListenOutcome D} {P : Listener D → Prop}
    (hListener : Ensures [] o (fun l windows => P l ∧ AllSpan audio start windows)
      (AllSpan audio start)) (t : Track D) :
    Ensures [] (t.inferAll env o)
      (fun t' actions => P t'.listener ∧ t'.timeOffset = t.timeOffset ∧
        Dated env audio start t.timeOffset actions)
      (Dated env audio start t.timeOffset) := by
  have hAll : AllSpan audio start o.emitted := hListener.always fun _ _ hHeard => hHeard.2
  refine Ensures.next (Ensures.runAll
    (P := fun _ => Infers env audio start t.timeOffset o.state) ?_ ⟨List.forall_mem_nil _, rfl, rfl⟩) ?_
  · intro before window after t' actions hSplit hBefore
    exact hBefore.infer (hAll window (hSplit ▸ List.mem_append_right _ List.mem_cons_self))
  · intro t' actions hInfers
    cases hError : o.error with
    | none =>
      refine Ensures.return_ ⟨?_, hInfers.offset, hInfers.dated⟩
      rw [hInfers.listener]
      exact (hListener.done hError).1
    | some e => exact Ensures.throw hInfers.dated

end Inference

/-- Between calls: everything the listener still holds belongs to the run. -/
structure Stands (audio : List Sample) (start : Nat) (offset : Option Int) (t : Track D) : Prop where
  listener : t.listener.Continues audio start
  offset : t.timeOffset = offset

namespace Stands

variable {t : Track D}

theorem cut (h : Stands audio start offset t) (env : TrackEnv) (chunk : AudioChunk) :
    Ensures [] (t.cut env chunk)
      (fun t' actions =>
        Stands audio (if chunk.discontinuity then audio.length else start)
          (if chunk.discontinuity then none else offset) t' ∧
        Dated env audio start offset actions)
      (Dated env audio start offset) := by
  unfold Track.cut
  split
  · have hFlush := inferAll_dated env h.listener.discontinuity t
    rw [h.offset] at hFlush
    exact hFlush.next fun t' actions h' => Ensures.return_ ⟨⟨h'.1, rfl⟩, h'.2.2⟩
  · exact Ensures.return_ ⟨h, List.forall_mem_nil _⟩

theorem anchorTime (h : Stands audio start offset t) {chunk : AudioChunk}
    (hOk : (t.anchorTime chunk).error = none) :
    Stands audio start (offset.or chunk.sourceOffset) (t.anchorTime chunk).state := by
  have hOffset := h.offset
  unfold Track.anchorTime at hOk ⊢
  split at hOk
  · rename_i time hNone hTime
    rw [hNone] at hOffset
    rw [← hOffset, Option.none_or, AudioChunk.sourceOffset, hTime, Option.map_some]
    split at hOk
    · cases hOk
    · rename_i hRange
      rw [if_neg hRange]
      split at hOk
      · cases hOk
      · rename_i us hStart
        exact ⟨h.listener, by rw [sampleUs_eq_ok hStart]⟩
  · rename_i hKept
    refine ⟨h.listener, ?_⟩
    cases hTime : t.timeOffset with
    | some value =>
      rw [← hOffset, hTime]
      rfl
    | none =>
      cases hChunk : chunk.presentationTimeUs with
      | some time => exact absurd hChunk (hKept time hTime)
      | none =>
        rw [← hOffset, hTime, AudioChunk.sourceOffset, hChunk]
        rfl

theorem listen (h : Stands audio start offset t) (env : TrackEnv) (chunk : AudioChunk) :
    Ensures [] (t.listen env chunk)
      (fun t' actions => Stands (audio ++ decodePcm chunk.pcmF32le) start offset t' ∧
        Dated env (audio ++ decodePcm chunk.pcmF32le) start offset actions)
      (Dated env (audio ++ decodePcm chunk.pcmF32le) start offset) := by
  have hHear := inferAll_dated env (h.listener.append (decodePcm chunk.pcmF32le)) t
  rw [h.offset] at hHear
  exact hHear.next fun t' actions h' => Ensures.return_ ⟨⟨h'.1, h'.2.1⟩, h'.2.2⟩

end Stands

/-- The part of a chunk's call that precedes its samples. -/
def turn (env : TrackEnv) (t : Track D) (chunk : AudioChunk) : TrackOutcome D :=
  (t.cut env chunk).next fun t => t.anchorTime chunk

theorem anchorTime_emitted (t : Track D) (chunk : AudioChunk) : (t.anchorTime chunk).emitted = [] := by
  unfold anchorTime
  split
  · split
    · rfl
    · split <;> rfl
  · rfl

theorem audio_mem {t : Track D} {chunk : AudioChunk} {action : TrackAction}
    (h : action ∈ (t.audio env chunk).emitted) :
    action ∈ (t.cut env chunk).emitted ∨
      (t.turn env chunk).error = none ∧ action ∈ ((t.turn env chunk).state.listen env chunk).emitted := by
  unfold audio at h
  split at h
  · cases h
  · split at h
    · cases h
    · refine (Outcome.mem_next h).imp_left fun hTurn => ?_
      rcases Outcome.mem_next hTurn with hCut | ⟨-, hAnchor⟩
      · exact hCut
      · rw [anchorTime_emitted] at hAnchor
        cases hAnchor

/-- What a track does while `arrived` is the audio it was given: what a flagged chunk flushes
comes before its arrival. -/
inductive Stage (env : TrackEnv) (t : Track D) (chunks : List AudioChunk) :
    List AudioChunk → TrackAction → Prop
  | cut {before after : List AudioChunk} {chunk : AudioChunk} {action : TrackAction}
      (hSplit : chunks = before ++ chunk :: after) (hOk : (runAll (Track.audio env) t before).error = none)
      (hAction : action ∈ ((runAll (Track.audio env) t before).state.cut env chunk).emitted) :
      Stage env t chunks before action
  | listen {before after : List AudioChunk} {chunk : AudioChunk} {action : TrackAction}
      (hSplit : chunks = before ++ chunk :: after) (hOk : (runAll (Track.audio env) t before).error = none)
      (hTurn : ((runAll (Track.audio env) t before).state.turn env chunk).error = none)
      (hAction : action ∈
        (((runAll (Track.audio env) t before).state.turn env chunk).state.listen env chunk).emitted) :
      Stage env t chunks (before ++ [chunk]) action
  | finish {action : TrackAction} (hOk : (runAll (Track.audio env) t chunks).error = none)
      (hAction : action ∈ ((runAll (Track.audio env) t chunks).state.finish env).emitted) :
      Stage env t chunks chunks action

theorem staged {t : Track D} {chunks : List AudioChunk} {action : TrackAction}
    (h : action ∈ ((runAll (Track.audio env) t chunks).next (finish env)).emitted) :
    ∃ arrived, Stage env t chunks arrived action := by
  rcases Outcome.mem_next h with hRun | ⟨hOk, hFinish⟩
  · obtain ⟨before, chunk, after, hSplit, hOk, hChunk⟩ := runAll_mem hRun
    rcases audio_mem hChunk with hCut | ⟨hTurn, hListen⟩
    · exact ⟨before, .cut hSplit hOk hCut⟩
    · exact ⟨before ++ [chunk], .listen hSplit hOk hTurn hListen⟩
  · exact ⟨chunks, .finish hOk hFinish⟩

def OnTime (arrived : List AudioChunk) (t : Track D) : Prop :=
  Stands (audioOf arrived) (runStart arrived) (runOffset arrived) t

namespace OnTime

variable {t : Track D} {arrived : List AudioChunk}

theorem turn (h : OnTime arrived t) {chunk : AudioChunk} (hOk : (t.turn env chunk).error = none) :
    Stands (audioOf arrived) (runStart (arrived ++ [chunk])) (runOffset (arrived ++ [chunk]))
      (t.turn env chunk).state := by
  obtain ⟨hCut, hAnchor⟩ := Outcome.next_error_none hOk
  have hNext := ((Stands.cut h env chunk).done hCut).1.anchorTime hAnchor
  rw [Track.turn, Outcome.next_of_none hCut, runStart_snoc, runOffset_snoc]
  exact hNext

theorem chunk (h : OnTime arrived t) {chunk : AudioChunk} (hOk : (t.audio env chunk).error = none) :
    OnTime (arrived ++ [chunk]) (t.audio env chunk).state := by
  unfold Track.audio at hOk ⊢
  split at hOk
  · cases hOk
  · rename_i hFormat
    rw [if_neg hFormat]
    split at hOk
    · cases hOk
    · rename_i hPosition
      rw [if_neg hPosition]
      obtain ⟨hTurn, hListen⟩ := Outcome.next_error_none (Option.map_eq_none_iff.mp hOk)
      dsimp only
      rw [Outcome.next_of_none hTurn, OnTime, audioOf_snoc]
      exact ((h.turn hTurn).listen env chunk |>.done hListen).1

theorem run (h : OnTime [] t) {before : List AudioChunk}
    (hOk : (runAll (Track.audio env) t before).error = none) :
    OnTime before (runAll (Track.audio env) t before).state :=
  runAll_tracks (P := fun done (s : Track D) _ => OnTime done s)
    (fun _ _ _ _ hDone hChunk => hDone.chunk hChunk) before [] t [] h hOk

theorem finish (h : OnTime arrived t) :
    Dated env (audioOf arrived) (runStart arrived) (runOffset arrived) (t.finish env).emitted := by
  have hFlush := inferAll_dated env (P := fun _ => True)
    (h.listener.finish.imp fun _ _ hAll => ⟨trivial, hAll⟩) t
  rw [h.offset] at hFlush
  have hInferred : Dated env (audioOf arrived) (runStart arrived) (runOffset arrived)
      (t.inferAll env t.listener.finish).emitted := hFlush.always fun _ _ hFlushed => hFlushed.2.2
  intro action hAction
  rcases Outcome.mem_next hAction with hWindow | ⟨-, hClose⟩
  · exact hInferred action hWindow
  · rw [close_emitted] at hClose
    rw [List.mem_singleton.mp hClose]
    trivial

theorem create {options : SpeechOptions} {track : Nat} (h : Track.create D options track = .ok t) :
    OnTime [] t := by
  unfold Track.create at h
  obtain ⟨w, hWindows, h⟩ := bind_eq_ok h
  cases h
  obtain ⟨-, -, rfl⟩ := Windowing.create_eq_ok hWindows
  refine ⟨⟨[], ?_, ⟨rfl, rfl, Nat.le_refl _, Nat.le_refl _⟩⟩, rfl⟩
  simp only [Listener.held, List.nil_append]
  split
  · rename_i v hVad
    split at hVad
    · cases hVad
      rfl
    · cases hVad
  · rfl

/-- Each stage is dated by the audio that had arrived. -/
theorem dated (h : OnTime [] t) {chunks : List AudioChunk} {action : TrackAction}
    (hStage : Stage env t chunks arrived action) :
    action.Dated env (audioOf arrived) (runStart arrived) (runOffset arrived) := by
  cases hStage with
  | cut hSplit hOk hAction =>
    rename_i after chunk
    have hCut := Stands.cut (h.run hOk) env chunk
    exact hCut.always (fun _ _ hDone => hDone.2) action hAction
  | listen hSplit hOk hTurn hAction =>
    rename_i before after chunk
    rw [audioOf_snoc]
    have hListen := ((h.run hOk).turn hTurn).listen env chunk
    exact hListen.always (fun _ _ hDone => hDone.2) action hAction
  | finish hOk hAction => exact (h.run hOk).finish action hAction

end OnTime

end Track

/-- Whatever a track sends or publishes is a window of one continuity run, and it carries the
offset of the first timestamp of that run that had arrived. -/
theorem speech_results_carry_run_timeline {D : Detector} {options : SpeechOptions} {track : Nat}
    {t : Track D} (hCreate : Track.create D options track = .ok t) (env : TrackEnv)
    (chunks : List AudioChunk) :
    (∀ action ∈ ((runAll (Track.audio env) t chunks).next (Track.finish env)).emitted,
      ∃ arrived, Track.Stage env t chunks arrived action) ∧
    ∀ arrived action, Track.Stage env t chunks arrived action →
      action.Dated env (audioOf arrived) (runStart arrived) (runOffset arrived) :=
  ⟨fun _ hAction => Track.staged hAction, fun _ _ hStage => (Track.OnTime.create hCreate).dated hStage⟩

/-- Two samples, and two more after a discontinuity, each pair with a time of its own. -/
def timedChunks : List AudioChunk :=
  [{ twoSamples with presentationTimeUs := some 5000000 },
    { twoSamples with
      chunkNumber := 2, firstSample := 2, discontinuity := true, presentationTimeUs := some 9000000 }]

example : (runStart (timedChunks.take 1), runOffset (timedChunks.take 1)) = (0, some 5000000) := by
  decide

example : (runStart timedChunks, runOffset timedChunks) = (2, some (9000000 - 125)) := by decide

theorem speech_results_carry_run_timeline_timed :
    ∃ t : Track silent, Track.create silent resolvedOptions 1 = .ok t ∧
      ∀ arrived action, Track.Stage silentEnv t timedChunks arrived action →
        action.Dated silentEnv (audioOf arrived) (runStart arrived) (runOffset arrived) := by
  obtain ⟨t, hCreate⟩ : ∃ t, Track.create silent resolvedOptions 1 = .ok t := ⟨_, rfl⟩
  exact ⟨t, hCreate, (speech_results_carry_run_timeline hCreate silentEnv timedChunks).2⟩

end GrpcAsr.Media
