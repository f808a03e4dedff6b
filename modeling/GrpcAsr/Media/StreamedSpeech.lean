import GrpcAsr.Media.DecodedTimeline
import GrpcAsr.Media.DemuxedAudio
import GrpcAsr.Media.SpeechTasks

/-!
# From media to speech windows

The audio of a decoder run goes chunk by chunk to the tracks of a pipeline, and each track cuts
it into windows for its worker stream. Here the two ends meet: no track finds a chunk out of
place, and the windows of every task are cut from the decoded audio of their track, all of it.
-/

namespace GrpcAsr.Media

open Emitting

set_option autoImplicit false

def TrackAction.window? : TrackAction → Option SpeechWindow
  | sent _ window _ => some window
  | _ => none

def sentWindows (actions : List TrackAction) : List SpeechWindow :=
  actions.filterMap TrackAction.window?

theorem sentWindows_append (actions more : List TrackAction) :
    sentWindows (actions ++ more) = sentWindows actions ++ sentWindows more :=
  List.filterMap_append

namespace Track

variable {D : Detector} {env : TrackEnv} {t : Track D} {pcm : List Sample}
  {actions : List TrackAction}

/-- An operation that neither cuts nor sends a window. -/
abbrev Holds (t : Track D) (o : TrackOutcome D) : Prop :=
  Leaves Track.listener TrackAction.window? t o

theorem reconcile_holds (env : TrackEnv) (t : Track D) (window : SpeechWindow)
    (h : SpeechHypothesis) : Holds t (t.reconcile env window h) := by
  unfold Track.reconcile
  split
  · exact ⟨rfl, rfl⟩
  · dsimp only
    split
    · exact ⟨rfl, rfl⟩
    · exact ⟨rfl, rfl⟩

theorem receive_holds (env : TrackEnv) (t : Track D) (window : SpeechWindow)
    (h : SpeechHypothesis) : Holds t (t.receive env window h) := by
  unfold Track.receive
  split
  · exact ⟨rfl, rfl⟩
  · split
    · exact ⟨rfl, rfl⟩
    · dsimp only
      split
      · exact ⟨rfl, rfl⟩
      · have hPublished (h : SpeechHypothesis) :
            Holds t ⟨t, [TrackAction.published window h], none⟩ := ⟨rfl, rfl⟩
        exact (hPublished _).next fun t' => reconcile_holds env t' window _

theorem anchorTime_holds (t : Track D) (chunk : AudioChunk) : Holds t (t.anchorTime chunk) := by
  constructor
  · unfold anchorTime
    split
    · split
      · rfl
      · split <;> rfl
    · rfl
  · rw [anchorTime_emitted]
    rfl

/-- A window is sent whatever becomes of it. -/
theorem infer_sends (env : TrackEnv) (t : Track D) (window : SpeechWindow) :
    (t.infer env window).state.listener = t.listener ∧
      sentWindows (t.infer env window).emitted = [window] := by
  unfold Track.infer
  dsimp only
  split
  · exact ⟨rfl, rfl⟩
  · rename_i h worker hReply
    have hReceive := receive_holds env { t with worker := worker } window h
    rw [Outcome.next_of_none rfl]
    constructor
    · exact hReceive.state
    · rw [sentWindows_append]
      simp only [sentWindows, hReceive.emitted, List.append_nil]
      rfl

theorem inferAll_sends {o : ListenOutcome D} (hOk : (t.inferAll env o).error = none) :
    o.error = none ∧ (t.inferAll env o).state.listener = o.state ∧
      sentWindows (t.inferAll env o).emitted = o.emitted := by
  unfold Track.inferAll at hOk ⊢
  obtain ⟨hWindows, hListener⟩ := Outcome.next_error_none hOk
  have hSent := runAll_tracks
    (P := fun done (t' : Track D) out => t'.listener = o.state ∧ sentWindows out = done)
    (fun done t' window out hDone _ => by
      obtain ⟨hState, hEmitted⟩ := infer_sends env t' window
      constructor
      · rw [hState]
        exact hDone.1
      · rw [sentWindows_append, hEmitted, hDone.2])
    o.emitted [] { t with listener := o.state } [] ⟨rfl, rfl⟩ hWindows
  rw [Outcome.next_of_none hWindows]
  simpa using ⟨hListener, hSent⟩

/-- The windows sent so far are those that the listener has cut from the audio. -/
def Heard (pcm : List Sample) (t : Track D) (actions : List TrackAction) : Prop :=
  t.listener.Follows pcm (sentWindows actions)

theorem Heard.inferAll {o : ListenOutcome D} {more : List Sample}
    (hListener : o.error = none →
      o.state.Follows (pcm ++ more) (sentWindows actions ++ o.emitted))
    (hOk : (t.inferAll env o).error = none) :
    Heard (pcm ++ more) (t.inferAll env o).state (actions ++ (t.inferAll env o).emitted) := by
  obtain ⟨hNone, hState, hEmitted⟩ := inferAll_sends hOk
  have hFollows := hListener hNone
  rw [← hState, ← hEmitted, ← sentWindows_append] at hFollows
  exact hFollows

theorem Heard.cut (h : Heard pcm t actions) {chunk : AudioChunk}
    (hOk : (t.cut env chunk).error = none) :
    Heard pcm (t.cut env chunk).state (actions ++ (t.cut env chunk).emitted) := by
  unfold Track.cut at hOk ⊢
  split at hOk
  · rename_i hFlag
    rw [if_pos hFlag]
    obtain ⟨hFlush, -⟩ := Outcome.next_error_none hOk
    have hListener (hNone : t.listener.discontinuity.error = none) :
        t.listener.discontinuity.state.Follows (pcm ++ [])
          (sentWindows actions ++ t.listener.discontinuity.emitted) := by
      rw [List.append_nil]
      exact Listener.discontinuity_follows h hNone
    have hCut := Heard.inferAll hListener hFlush
    rw [List.append_nil] at hCut
    rw [Outcome.next_of_none hFlush]
    simp only [List.append_nil]
    exact hCut
  · rename_i hFlag
    rw [if_neg hFlag]
    simpa using h

theorem Heard.holds (h : Heard pcm t actions) {o : TrackOutcome D} (hHolds : Holds t o) :
    Heard pcm o.state (actions ++ o.emitted) := by
  have hNone : sentWindows o.emitted = [] := hHolds.emitted
  rw [Heard, hHolds.state, sentWindows_append, hNone, List.append_nil]
  exact h

theorem Heard.listen (h : Heard pcm t actions) {chunk : AudioChunk}
    (hOk : (t.listen env chunk).error = none) :
    Heard (pcm ++ decodePcm chunk.pcmF32le) (t.listen env chunk).state
      (actions ++ (t.listen env chunk).emitted) := by
  unfold Track.listen at hOk ⊢
  obtain ⟨hHear, -⟩ := Outcome.next_error_none hOk
  have hHeard := Heard.inferAll (Listener.append_follows h) hHear
  rw [Outcome.next_of_none hHear]
  simp only [List.append_nil]
  exact hHeard

/-- A chunk that is taken adds its samples. -/
theorem Heard.audio (h : Heard pcm t actions) {chunk : AudioChunk}
    (hOk : (t.audio env chunk).error = none) :
    Heard (pcm ++ decodePcm chunk.pcmF32le) (t.audio env chunk).state
      (actions ++ (t.audio env chunk).emitted) := by
  unfold Track.audio at hOk ⊢
  split at hOk
  · cases hOk
  · rename_i hFormat
    rw [if_neg hFormat]
    split at hOk
    · cases hOk
    · rename_i hPlace
      rw [if_neg hPlace]
      obtain ⟨hTurn, hListen⟩ := Outcome.next_error_none (Option.map_eq_none_iff.mp hOk)
      obtain ⟨hCut, hAnchor⟩ := Outcome.next_error_none hTurn
      have hAnchored := (h.cut hCut).holds (anchorTime_holds _ chunk)
      rw [Outcome.next_of_none hCut] at hListen hTurn ⊢
      have hHeard := hAnchored.listen hListen
      rw [Outcome.next_of_none hTurn]
      simpa using hHeard

theorem Heard.run {chunks : List AudioChunk} (h : Heard [] t [])
    (hOk : (runAll (Track.audio env) t chunks).error = none) :
    Heard (audioOf chunks) (runAll (Track.audio env) t chunks).state
      (runAll (Track.audio env) t chunks).emitted := by
  have hStep : ∀ done (t' : Track D) chunk (actions : List TrackAction),
      Heard (audioOf done) t' actions → (Track.audio env t' chunk).error = none →
        Heard (audioOf (done ++ [chunk])) (Track.audio env t' chunk).state
          (actions ++ (Track.audio env t' chunk).emitted) := by
    intro done t' chunk actions h' hTaken
    rw [audioOf_snoc]
    exact h'.audio hTaken
  have hAll := runAll_tracks (P := fun done t' out => Heard (audioOf done) t' out) hStep chunks
    [] t [] h hOk
  simpa using hAll

/-- The end of a track sends what is left. -/
theorem Heard.finish (h : Heard pcm t actions) (hOk : (t.finish env).error = none) :
    Covers pcm (sentWindows (actions ++ (t.finish env).emitted)) := by
  unfold Track.finish at hOk ⊢
  obtain ⟨hFlush, -⟩ := Outcome.next_error_none hOk
  obtain ⟨hNone, -, hEmitted⟩ := inferAll_sends (Option.map_eq_none_iff.mp hFlush)
  obtain ⟨hTiles, hEnd⟩ := Listener.finish_covers h hNone
  rw [Outcome.next_of_none hFlush]
  have hClose (t' : Track D) : sentWindows (t'.close env).emitted = [] := by
    rw [close_emitted]
    rfl
  simp only [sentWindows_append, hEmitted, hClose, List.append_nil]
  exact hTiles.covers hEnd

theorem create_heard {options : SpeechOptions} {track : Nat}
    (h : Track.create D options track = .ok t) : Heard [] t [] := by
  unfold Track.create at h
  obtain ⟨w, hWindows, h⟩ := bind_eq_ok h
  cases h
  refine ⟨[], ?_, Buffered.initial hWindows⟩
  simp only [Listener.held, List.nil_append]
  split
  · rename_i v hVad
    split at hVad
    · cases hVad
      rfl
    · cases hVad
  · rfl

theorem create_tallied {options : SpeechOptions} {track : Nat}
    (h : Track.create D options track = .ok t) : Tallied 0 0 t := by
  unfold Track.create at h
  obtain ⟨w, -, h⟩ := bind_eq_ok h
  cases h
  exact ⟨rfl, rfl⟩

/-- A track that is opened, takes its chunks and is finished has sent all of its audio. -/
theorem run_covers {options : SpeechOptions} {track : Nat}
    (hCreate : Track.create D options track = .ok t) {chunks : List AudioChunk}
    (hOk : ((runAll (Track.audio env) t chunks).next (Track.finish env)).error = none) :
    Covers (audioOf chunks)
      (sentWindows ((runAll (Track.audio env) t chunks).next (Track.finish env)).emitted) := by
  obtain ⟨hRun, hFinish⟩ := Outcome.next_error_none hOk
  rw [Outcome.next_of_none hRun]
  exact ((create_heard hCreate).run hRun).finish hFinish

end Track

namespace Pipeline

variable {D : Detector} {env : PipelineEnv} {chunks : List AudioChunk}

theorem ownCalls_eq {key : TrackKey} (h : key.2 < env.speech.length) :
    ownCalls env chunks key = (chunksOf key.1 chunks).map TrackCall.audio := if_pos h

/-- In a run without an error the windows of every task cover the audio of their track. -/
theorem run_covers (hOk : (run env D chunks).error = none) {key : TrackKey}
    (hTask : key.2 < env.speech.length) :
    Covers (audioOf (chunksOf key.1 chunks))
      (sentWindows (Family.Machines.own key (run env D chunks).emitted)) := by
  obtain ⟨taken, -, -, hWhole, hRuns⟩ := run_alone D env chunks key
  rw [hOk, ownCalls_eq hTask] at hWhole
  have hTaken := hWhole rfl
  by_cases hNone : chunksOf key.1 chunks = []
  · rw [hNone, List.map_nil, if_pos rfl] at hTaken
    rcases hRuns with ⟨-, hEmitted⟩ | ⟨t, -, hEmitted, -⟩
    · rw [hEmitted, hNone]
      exact (Tiles.nil []).covers rfl
    · rw [hEmitted, hTaken, hNone]
      exact (Tiles.nil []).covers rfl
  · rw [if_neg (fun hMap => hNone (List.map_eq_nil_iff.mp hMap))] at hTaken
    rcases hRuns with ⟨hNothing, -⟩ | ⟨t, hOpen, hEmitted, hAlone⟩
    · rw [hTaken] at hNothing
      exact absurd hNothing (List.append_ne_nil_of_right_ne_nil _ (List.cons_ne_nil _ _))
    · rw [hTaken, take_whole] at hEmitted hAlone
      rw [hOk, or_self] at hAlone
      rw [hEmitted]
      exact Track.run_covers (openTrack_create hOpen) hAlone

end Pipeline

/-- The chunks of a decoder run, as they come to the tracks of a pipeline. -/
theorem demuxed_cut (env : Demux.DemuxEnv) (options : DecodeOptions)
    (replies : Demux.DemuxReplies) : ∃ calls, CutTracks env.audio calls
        (Demux.audioOf (Demux.Decoder.run env options replies).emitted) ∧
      ((Demux.Decoder.run env options replies).error = none →
        calls = Demux.audioCalls options replies ∧ ∀ track,
          audioOf (chunksOf track (Demux.audioOf (Demux.Decoder.run env options replies).emitted)) =
            (AudioTimeline.ofCalls env.audio track (callsOf track calls)).output) := by
  have hRun := Demux.Decoder.run_decodes env options replies
  cases hError : (Demux.Decoder.run env options replies).error with
  | none =>
    obtain ⟨hDecodes, -⟩ := hRun.done hError
    have hInStep := decodeAudio_inStep env.audio (Demux.audioCalls options replies)
    rw [List.nil_append] at hDecodes
    refine ⟨Demux.audioCalls options replies, ?_, fun _ => ⟨rfl, fun track => ?_⟩⟩
    · rw [hDecodes.emitted]
      exact hInStep.always fun _ _ hDone other => (hDone other).cut
    · rw [hDecodes.emitted]
      exact (hInStep.done hDecodes.error track).whole
  | some e =>
    obtain ⟨calls, -, hAudio⟩ := hRun.failed (hError ▸ Option.some_ne_none e)
    rw [List.nil_append] at hAudio
    refine ⟨calls, ?_, fun hNone => absurd hNone (Option.some_ne_none e)⟩
    rw [hAudio]
    exact (decodeAudio_inStep env.audio calls).always fun _ _ hDone other => (hDone other).cut

/-- Whatever a decoder run emits before it ends or fails, no track refuses a chunk for its format
or its place. If neither the decoder nor the pipeline fails, the windows of every task are cut
from the decoded audio of their track, and their new parts are the whole of it. -/
theorem decoded_speech_heard (env : Demux.DemuxEnv) (options : DecodeOptions)
    (replies : Demux.DemuxReplies) (D : Detector) (pipeline : PipelineEnv) :
    let decoded := Demux.Decoder.run env options replies
    let piped := Pipeline.run pipeline D (Demux.audioOf decoded.emitted)
    (∀ (key : TrackKey) (t : Track D) (before : List AudioChunk) (chunk : AudioChunk)
        (after : List AudioChunk), pipeline.openTrack D key = .ok t →
      chunksOf key.1 (Demux.audioOf decoded.emitted) = before ++ chunk :: after →
      (runAll (Track.audio (pipeline.tracks key)) t before).error = none →
      (runAll (Track.audio (pipeline.tracks key)) t before).state.Accepts chunk) ∧
    (decoded.error = none → piped.error = none → ∀ key : TrackKey, key.2 < pipeline.speech.length →
      Covers (AudioTimeline.ofCalls env.audio key.1
          (callsOf key.1 (Demux.audioCalls options replies))).output
        (sentWindows (Family.Machines.own key piped.emitted))) := by
  intro decoded piped
  obtain ⟨calls, hCut, hWhole⟩ := demuxed_cut env options replies
  constructor
  · intro key t before chunk after hOpen hSplit hTaken
    have hFollows := (hCut key.1).follows before chunk after hSplit
    have hTallied :=
      Track.Tallied.run (Track.create_tallied (Pipeline.openTrack_create hOpen)) hTaken
    exact ⟨hFollows.format, hFollows.first.trans hTallied.1.symm,
      hFollows.number.trans (congrArg (· + 1) hTallied.2.symm)⟩
  · intro hDecoded hPiped key hTask
    obtain ⟨rfl, hOutput⟩ := hWhole hDecoded
    rw [← hOutput key.1]
    exact Pipeline.run_covers hPiped hTask

end GrpcAsr.Media
