import GrpcAsr.Media.VoiceActivity
import GrpcAsr.Media.WindowCoverage

/-!
# The windows of a track partition its audio

The detector relays the samples it is given: what it emits and what it still holds is
what it received. Together with the tiling of the windows this gives the partition of
the audio for window streams alone and for streams behind a detector.
-/

namespace GrpcAsr.Media

open Emitting

set_option autoImplicit false

def heard (frames : List Frame) : List Sample := frames.flatMap Frame.samples

@[simp] theorem heard_nil : heard [] = [] := rfl

@[simp] theorem heard_append (frames more : List Frame) :
    heard (frames ++ more) = heard frames ++ heard more := List.flatMap_append

/-- The samples a detector operation takes in are those it emits followed by those it holds. -/
def Relays {D : Detector} (v : VoiceActivity D) (input : List Sample) (o : VoiceOutcome D) : Prop :=
  v.pending ++ input = heard o.emitted ++ o.state.pending

namespace VoiceActivity

variable {D : Detector}

theorem flush_relays {v : VoiceActivity D} (hOk : v.flush.error = none) :
    Relays v [] v.flush ∧ v.flush.state.pending = [] := by
  unfold flush at hOk ⊢
  split at hOk
  · rename_i hEmpty
    rw [if_pos hEmpty]
    exact ⟨by simp [Relays], hEmpty⟩
  · rename_i hHeld
    rw [if_neg hHeld]
    split at hOk
    · split at hOk
      · cases hOk
      · rename_i hRange
        simp only [if_neg hRange]
        exact ⟨by simp [Relays, heard], trivial⟩
    · cases hOk
    · cases hOk

theorem appendSample_relays {v : VoiceActivity D} {sample : Sample}
    (hOk : (v.appendSample sample).error = none) : Relays v [sample] (v.appendSample sample) := by
  unfold appendSample at hOk ⊢
  split at hOk
  · cases hOk
  · rename_i hFinite
    rw [if_neg hFinite]
    dsimp only at hOk ⊢
    split at hOk
    · rename_i hFull
      rw [if_pos hFull]
      simpa [Relays] using (flush_relays hOk).1
    · rename_i hRoom
      rw [if_neg hRoom]
      simp [Relays]

theorem closing_of_none {o : VoiceOutcome D} (hOk : (closing o).error = none) :
    closing o = o ∧ o.error = none := by
  unfold closing at hOk ⊢
  split at hOk
  · rename_i hSome
    simp only at hOk
    rw [hOk] at hSome
    cases hSome
  · rename_i hNone
    rw [if_neg hNone]
    exact ⟨rfl, hOk⟩

theorem append_relays {v : VoiceActivity D} {samples : List Sample}
    (hOk : (v.append samples).error = none) : Relays v samples (v.append samples) := by
  unfold append at hOk ⊢
  split at hOk
  · cases hOk
  · rename_i hOpen
    obtain ⟨hSame, hRun⟩ := closing_of_none hOk
    rw [if_neg hOpen, hSame]
    have hAll := runAll_tracks
      (P := fun done (s : VoiceActivity D) out => v.pending ++ done = heard out ++ s.pending)
      (fun done s sample out hDone hSample => by
        have hStep := appendSample_relays hSample
        rw [← List.append_assoc, hDone, List.append_assoc, hStep, heard_append, List.append_assoc])
      samples [] v [] (by simp) hRun
    simpa [Relays] using hAll

theorem discontinuity_relays {v : VoiceActivity D} (hOk : v.discontinuity.error = none) :
    Relays v [] v.discontinuity ∧ v.discontinuity.state.pending = [] := by
  unfold discontinuity at hOk ⊢
  split at hOk
  · cases hOk
  · rename_i hOpen
    obtain ⟨hSame, hRun⟩ := closing_of_none hOk
    rw [if_neg hOpen, hSame]
    obtain ⟨hFlush, -⟩ := Outcome.next_error_none hRun
    rw [Outcome.next_of_none hFlush]
    simpa [Relays] using flush_relays hFlush

theorem finish_relays {v : VoiceActivity D} (hOk : v.finish.error = none) :
    Relays v [] v.finish ∧ v.finish.state.pending = [] := by
  unfold finish at hOk ⊢
  split at hOk
  · cases hOk
  · rename_i hOpen
    rw [if_neg hOpen]
    exact flush_relays hOk

theorem call_relays {v : VoiceActivity D} {call : AudioCall} (hOk : (v.call call).error = none) :
    Relays v call.audio (v.call call) := by
  cases call with
  | append samples => exact append_relays hOk
  | discontinuity => exact (discontinuity_relays hOk).1

/-- Without an exception the emitted frames are the appended audio, without padding. -/
theorem frames_eq_audio {calls : List AudioCall}
    (hOk : (((create D).run calls).next finish).error = none) :
    heard (((create D).run calls).next finish).emitted = calls.flatMap AudioCall.audio := by
  obtain ⟨hRun, hFinish⟩ := Outcome.next_error_none hOk
  have hAll := runAll_tracks
    (P := fun done (s : VoiceActivity D) out => done.flatMap AudioCall.audio = heard out ++ s.pending)
    (fun done s audio out hDone hCall => by
      have hStep := call_relays hCall
      rw [List.flatMap_append, hDone, heard_append, List.append_assoc, List.append_assoc]
      simpa [Relays] using hStep)
    calls [] (create D) [] rfl hRun
  obtain ⟨hRelay, hEmpty⟩ := finish_relays hFinish
  rw [Outcome.next_of_none hRun, heard_append]
  simp only [List.nil_append] at hAll
  rw [hAll]
  simp only [Relays, List.append_nil, hEmpty] at hRelay
  rw [← hRelay]
  rfl

end VoiceActivity

namespace Listener

variable {D : Detector}

def held (l : Listener D) : List Sample :=
  match l.vad with
  | some v => v.pending
  | none => []

/-- What the windows received and what the detector still holds is the track's audio. -/
def Follows (audio : List Sample) (l : Listener D) (windows : List SpeechWindow) : Prop :=
  ∃ received, received ++ l.held = audio ∧ Buffered received l.windows windows

section Steps

variable {audio received : List Sample} {l : Listener D} {windows : List SpeechWindow}

theorem classify_buffered (h : Buffered received l.windows windows) {frames : List Frame}
    (hOk : (runAll classify l.windows frames).error = none) :
    Buffered (received ++ heard frames) (runAll classify l.windows frames).state
      (windows ++ (runAll classify l.windows frames).emitted) := by
  apply runAll_tracks (P := fun done s out => Buffered (received ++ heard done) s out) _ frames []
    l.windows windows (by simpa using h) hOk
  intro done s frame out hDone hFrame
  have hNext := hDone.append hFrame
  rw [List.append_assoc] at hNext
  simpa [heard, classify] using hNext

theorem hear_error_none {o : VoiceOutcome D} (hOk : (l.hear o).error = none) :
    o.error = none ∧ (runAll classify l.windows o.emitted).error = none ∧
      l.hear o = ⟨⟨some o.state, (runAll classify l.windows o.emitted).state⟩,
        (runAll classify l.windows o.emitted).emitted, none⟩ := by
  unfold hear at hOk ⊢
  cases hWindows : (runAll classify l.windows o.emitted).error with
  | some e => simp [hWindows] at hOk
  | none =>
    simp only [hWindows] at hOk ⊢
    exact ⟨hOk, trivial, by rw [hOk]⟩

theorem hear_follows {v : VoiceActivity D} {input : List Sample} {o : VoiceOutcome D}
    (h : Follows audio l windows) (hVad : l.vad = some v)
    (hRelays : o.error = none → Relays v input o) (hOk : (l.hear o).error = none) :
    Follows (audio ++ input) (l.hear o).state (windows ++ (l.hear o).emitted) := by
  obtain ⟨received, hAudio, hBuffered⟩ := h
  obtain ⟨hVoice, hWindows, hEq⟩ := hear_error_none hOk
  have hRelay := hRelays hVoice
  have hHeld : l.held = v.pending := by rw [held, hVad]
  rw [hEq]
  refine ⟨received ++ heard o.emitted, ?_, classify_buffered hBuffered hWindows⟩
  rw [← hAudio, hHeld, List.append_assoc, List.append_assoc, hRelay]
  rfl

theorem append_follows {samples : List Sample} (h : Follows audio l windows)
    (hOk : (l.append samples).error = none) :
    Follows (audio ++ samples) (l.append samples).state (windows ++ (l.append samples).emitted) := by
  unfold append at hOk ⊢
  cases hVad : l.vad with
  | some v =>
    simp only [hVad] at hOk ⊢
    exact hear_follows h hVad VoiceActivity.append_relays hOk
  | none =>
    simp only [hVad] at hOk ⊢
    obtain ⟨received, hAudio, hBuffered⟩ := h
    simp only [held, hVad, List.append_nil] at hAudio
    subst hAudio
    exact ⟨received ++ samples, by simp [held, cut, hVad], hBuffered.append hOk⟩

/-- Before the windows are closed or cut, the detector has handed over everything it held. -/
theorem drain_buffered {f : VoiceActivity D → VoiceOutcome D} (h : Follows audio l windows)
    (hDrain : ∀ v, (f v).error = none → Relays v [] (f v) ∧ (f v).state.pending = [])
    (hOk : (l.drain f).error = none) :
    (l.drain f).state.held = [] ∧
      Buffered audio (l.drain f).state.windows (windows ++ (l.drain f).emitted) := by
  unfold drain at hOk ⊢
  cases hVad : l.vad with
  | some v =>
    simp only [hVad] at hOk ⊢
    obtain ⟨received, hAudio, hBuffered⟩ :=
      hear_follows h hVad (fun hVoice => (hDrain v hVoice).1) hOk
    obtain ⟨hVoice, -, hEq⟩ := hear_error_none hOk
    have hEmpty : (l.hear (f v)).state.held = [] := by
      rw [hEq]
      exact (hDrain v hVoice).2
    rw [hEmpty, List.append_nil, List.append_nil] at hAudio
    exact ⟨hEmpty, hAudio ▸ hBuffered⟩
  | none =>
    obtain ⟨received, hAudio, hBuffered⟩ := h
    have hEmpty : l.held = [] := by rw [held, hVad]
    rw [hEmpty, List.append_nil] at hAudio
    exact ⟨hEmpty, by simpa using hAudio ▸ hBuffered⟩

theorem discontinuity_follows (h : Follows audio l windows) (hOk : l.discontinuity.error = none) :
    Follows audio l.discontinuity.state (windows ++ l.discontinuity.emitted) := by
  unfold discontinuity at hOk ⊢
  obtain ⟨hDrained, hCut⟩ := Outcome.next_error_none hOk
  obtain ⟨hHeld, hBuffered⟩ :=
    drain_buffered h (fun _ => VoiceActivity.discontinuity_relays) hDrained
  have hStill : ∀ o, ((l.drain VoiceActivity.discontinuity).state.cut o).state.held = [] :=
    fun _ => hHeld
  rw [Outcome.next_of_none hDrained, ← List.append_assoc]
  exact ⟨audio, by rw [hStill, List.append_nil], hBuffered.discontinuity hCut⟩

theorem call_follows {call : AudioCall} (h : Follows audio l windows)
    (hOk : (l.call call).error = none) :
    Follows (audio ++ call.audio) (l.call call).state (windows ++ (l.call call).emitted) := by
  cases call with
  | append samples => exact append_follows h hOk
  | discontinuity =>
    simp only [AudioCall.audio, List.append_nil]
    exact discontinuity_follows h hOk

theorem finish_covers (h : Follows audio l windows) (hOk : l.finish.error = none) :
    Tiles audio (windows ++ l.finish.emitted) ∧
      lastEnd (windows ++ l.finish.emitted) = audio.length := by
  unfold finish at hOk ⊢
  obtain ⟨hDrained, hCut⟩ := Outcome.next_error_none hOk
  obtain ⟨-, hBuffered⟩ := drain_buffered h (fun _ => VoiceActivity.finish_relays) hDrained
  rw [Outcome.next_of_none hDrained, ← List.append_assoc]
  exact hBuffered.finish hCut

end Steps

theorem run_follows {l : Listener D} {calls : List AudioCall} (h : Follows [] l [])
    (hOk : (l.run calls).error = none) :
    Follows (calls.flatMap AudioCall.audio) (l.run calls).state (l.run calls).emitted := by
  have hAll := runAll_tracks
    (P := fun done s out => Follows (done.flatMap AudioCall.audio) s out)
    (fun done s audio out hDone hCall => by
      simpa using call_follows hDone hCall)
    calls [] l [] h hOk
  rwa [List.nil_append, List.nil_append] at hAll

end Listener

/-- Windows that cover a track: they tile it, they end where it ends, and their new parts
are the whole of it. -/
structure Covers (audio : List Sample) (windows : List SpeechWindow) : Prop extends
    Tiles audio windows where
  complete : lastEnd windows = audio.length
  whole : windows.flatMap SpeechWindow.newSamples = audio

theorem Tiles.covers {audio : List Sample} {windows : List SpeechWindow} (h : Tiles audio windows)
    (hEnd : lastEnd windows = audio.length) : Covers audio windows where
  toTiles := h
  complete := hEnd
  whole := by rw [h.newSamples_flatMap, hEnd, List.take_length]

theorem windows_partition_audio {policy : WindowPolicy} {w : Windowing}
    (hCreate : Windowing.create policy = .ok w) :
    (∀ calls : List WindowCall, ((w.run calls).next Windowing.finish).error = none →
      Covers (calls.flatMap WindowCall.audio) ((w.run calls).next Windowing.finish).emitted) ∧
    (∀ (D : Detector) (calls : List AudioCall),
      ((((VoiceActivity.create D).run calls).next VoiceActivity.finish).error = none →
        heard (((VoiceActivity.create D).run calls).next VoiceActivity.finish).emitted =
          calls.flatMap AudioCall.audio) ∧
      (((Listener.run ⟨some (VoiceActivity.create D), w⟩ calls).next Listener.finish).error = none →
        Covers (calls.flatMap AudioCall.audio)
          ((Listener.run ⟨some (VoiceActivity.create D), w⟩ calls).next Listener.finish).emitted)) := by
  have hInitial := Buffered.initial hCreate
  refine ⟨?_, fun D calls => ⟨VoiceActivity.frames_eq_audio, ?_⟩⟩
  · intro calls hOk
    obtain ⟨hRun, hFinish⟩ := Outcome.next_error_none hOk
    rw [Outcome.next_of_none hRun]
    obtain ⟨hTiles, hEnd⟩ := (hInitial.run hRun).finish hFinish
    exact hTiles.covers hEnd
  · intro hOk
    obtain ⟨hRun, hFinish⟩ := Outcome.next_error_none hOk
    have hStart : Listener.Follows [] (⟨some (VoiceActivity.create D), w⟩ : Listener D) [] :=
      ⟨[], rfl, hInitial⟩
    rw [Outcome.next_of_none hRun]
    obtain ⟨hTiles, hEnd⟩ := Listener.finish_covers (Listener.run_follows hStart hRun) hFinish
    exact hTiles.covers hEnd

/-- Windows of four samples with one sample of overlap. -/
def shortWindows : WindowPolicy := ⟨4, 4, 1, 0, 0, false, false⟩

def shortCalls : List WindowCall :=
  [.append (List.replicate 6 0) true, .discontinuity, .append (List.replicate 3 0) false]

theorem windows_partition_audio_short :
    Covers (shortCalls.flatMap WindowCall.audio)
      (((Windowing.mk shortWindows [] 0 0 0 0 0 false false).run shortCalls).next
        Windowing.finish).emitted :=
  (@windows_partition_audio shortWindows _ rfl).1 shortCalls (by decide)

end GrpcAsr.Media
