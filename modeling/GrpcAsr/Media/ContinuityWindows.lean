import GrpcAsr.Media.WindowProtocol

/-!
# Windows within a continuity run

A discontinuity cuts what the detector and the windows still hold before the next sample is
taken. `Fills` says that everything buffered lies behind the start of the run, so every
window is a slice of the audio that begins no earlier.
-/

namespace GrpcAsr.Media

open Emitting

set_option autoImplicit false

/-- A window of the audio that starts no earlier than `start`. -/
structure Spans (audio : List Sample) (start : Nat) (window : SpeechWindow) : Prop where
  starts : start ≤ window.firstSample
  slice : window.samples = (audio.drop window.firstSample).take window.samples.length
  ends : window.end ≤ audio.length

theorem Spans.mono {audio more : List Sample} {start : Nat} {window : SpeechWindow}
    (h : Spans audio start window) (hPrefix : audio <+: more) : Spans more start window := by
  obtain ⟨rest, rfl⟩ := hPrefix
  have hEnds := h.ends
  simp only [SpeechWindow.end] at hEnds
  refine ⟨h.starts, ?_, ?_⟩
  · have hSlice := h.slice
    rw [List.drop_append_of_le_length (by omega), List.take_append_of_le_length]
    · exact hSlice
    · rw [List.length_drop]
      omega
  · rw [List.length_append]
    exact Nat.le_trans h.ends (Nat.le_add_right _ _)

def AllSpan (audio : List Sample) (start : Nat) (windows : List SpeechWindow) : Prop :=
  ∀ window ∈ windows, Spans audio start window

theorem AllSpan.nil {audio : List Sample} {start : Nat} : AllSpan audio start [] :=
  List.forall_mem_nil _

theorem AllSpan.mono {audio more : List Sample} {start : Nat} {windows : List SpeechWindow}
    (h : AllSpan audio start windows) (hPrefix : audio <+: more) : AllSpan more start windows :=
  fun window hWindow => (h window hWindow).mono hPrefix

/-- The buffer is the end of the audio, behind the start of the run. -/
structure Fills (audio : List Sample) (start : Nat) (w : Windowing) : Prop where
  buffer : w.buffer = audio.drop w.first
  received : w.received = audio.length
  first_le : w.first ≤ audio.length
  starts : start ≤ w.first

/-- A state between calls and the windows cut so far. -/
def Cuts (audio : List Sample) (start : Nat) (w : Windowing) (windows : List SpeechWindow) : Prop :=
  Fills audio start w ∧ AllSpan audio start windows

section Windows

variable {audio : List Sample} {start : Nat} {w : Windowing} {windows : List SpeechWindow}

theorem Cuts.emit (h : Cuts audio start w windows) {count : Nat} (hCount : count ≤ w.buffer.length)
    (boundary : WindowBoundary) (overlap : Nat) :
    Cuts audio start (w.emit count boundary overlap).state
      (windows ++ (w.emit count boundary overlap).emitted) := by
  obtain ⟨hFills, hAll⟩ := h
  have hLength : w.buffer.length = audio.length - w.first := by
    rw [hFills.buffer, List.length_drop]
  have hFirst := hFills.first_le
  unfold Windowing.emit
  split
  · rw [List.append_nil]
    exact ⟨hFills, hAll⟩
  · refine ⟨⟨?_, hFills.received, ?_, ?_⟩, List.forall_mem_append.mpr ⟨hAll, ?_⟩⟩
    · dsimp only
      rw [hFills.buffer, List.drop_drop]
    · dsimp only
      omega
    · exact Nat.le_trans hFills.starts (Nat.le_add_right _ _)
    · intro window hWindow
      rw [List.mem_singleton.mp hWindow]
      refine ⟨hFills.starts, ?_, ?_⟩
      · dsimp only
        rw [List.length_take, Nat.min_eq_left hCount, hFills.buffer]
      · simp only [SpeechWindow.end, List.length_take]
        omega

theorem Cuts.receive (h : Cuts audio start w windows) (speech : Bool) (sample : Sample) :
    Cuts (audio ++ [sample]) start (w.receive speech sample) windows := by
  obtain ⟨hFills, hAll⟩ := h
  have hFirst := w.receive_first speech sample
  refine ⟨⟨?_, ?_, ?_, ?_⟩, hAll.mono (List.prefix_append _ _)⟩
  · rw [Windowing.receive_buffer, hFirst, List.drop_append_of_le_length hFills.first_le, hFills.buffer]
  · rw [Windowing.receive_received, hFills.received, List.length_append, List.length_singleton]
  · rw [hFirst, List.length_append]
    exact Nat.le_trans hFills.first_le (Nat.le_add_right _ _)
  · rw [hFirst]
    exact hFills.starts

theorem Cuts.cutFixed (h : Cuts audio start w windows) :
    Cuts audio start w.cutFixed.state (windows ++ w.cutFixed.emitted) := by
  unfold Windowing.cutFixed
  split
  · exact h.emit (Nat.le_refl _) _ _
  · rw [List.append_nil]
    exact h

theorem Cuts.cutAtPause (h : Cuts audio start w windows) :
    Cuts audio start w.cutAtPause.state (windows ++ w.cutAtPause.emitted) := by
  unfold Windowing.cutAtPause
  split
  · rename_i hPause
    simp only [Bool.and_eq_true, decide_eq_true_eq] at hPause
    have hReceived := h.1.received
    have hLength : w.buffer.length = audio.length - w.first := by
      rw [h.1.buffer, List.length_drop]
    exact h.emit (by omega) _ _
  · rw [List.append_nil]
    exact h

theorem Cuts.cutAtLimit (h : Cuts audio start w windows) :
    Cuts audio start w.cutAtLimit.state (windows ++ w.cutAtLimit.emitted) := by
  unfold Windowing.cutAtLimit
  split
  · split
    · rw [List.append_nil]
      exact ⟨{ h.1 with }, h.2⟩
    · exact h.emit (Nat.le_refl _) _ _
  · rw [List.append_nil]
    exact h

theorem Cuts.ensures {o : WindowOutcome} (h : Cuts audio start o.state (windows ++ o.emitted)) :
    Ensures windows o (Cuts audio start) (AllSpan audio start) :=
  ⟨fun _ => h, fun _ => h.2⟩

theorem Cuts.appendSample (h : Cuts audio start w windows) (speech : Bool) (sample : Sample) :
    Ensures windows (w.appendSample speech sample) (Cuts (audio ++ [sample]) start)
      (AllSpan (audio ++ [sample]) start) := by
  have hReceive := h.receive speech sample
  unfold Windowing.appendSample
  split
  · exact Ensures.throw hReceive.2
  · split
    · exact hReceive.cutFixed.ensures
    · exact hReceive.cutAtPause.ensures.next fun w' windows' h' => h'.cutAtLimit.ensures

theorem Cuts.append (h : Cuts audio start w windows) (samples : List Sample) (speech : Bool) :
    Ensures windows (w.append samples speech) (Cuts (audio ++ samples) start)
      (AllSpan (audio ++ samples) start) := by
  unfold Windowing.append
  split
  · exact Ensures.throw (h.2.mono (List.prefix_append _ _))
  · refine Ensures.runAll (P := fun done s out => Cuts (audio ++ done) start s out) ?_ (by simpa using h)
    intro before sample after s out hSplit hBefore
    have hStep := hBefore.appendSample speech sample
    rw [List.append_assoc] at hStep
    have hPrefix : before ++ [sample] <+: samples := ⟨after, by rw [hSplit, List.append_assoc, List.singleton_append]⟩
    exact ⟨hStep.done, fun hFail =>
      (hStep.failed hFail).mono ((List.prefix_append_right_inj audio).mpr hPrefix)⟩

/-- The cut takes what is left of the old run, and a new one starts. -/
theorem Cuts.discontinuity (h : Cuts audio start w windows) :
    Ensures windows w.discontinuity
      (fun w' windows' => Fills audio audio.length w' ∧ AllSpan audio start windows')
      (AllSpan audio start) := by
  unfold Windowing.discontinuity
  split
  · exact Ensures.throw h.2
  · refine (h.emit (Nat.le_refl _) .discontinuity 0).ensures.next fun w' windows' h' => ?_
    have hReceived := h'.1.received
    refine Ensures.return_ ⟨⟨?_, hReceived, ?_, ?_⟩, h'.2⟩
    · dsimp only
      rw [hReceived, List.drop_length]
    · exact Nat.le_of_eq hReceived
    · exact Nat.le_of_eq hReceived.symm

theorem Cuts.finish (h : Cuts audio start w windows) :
    Ensures windows w.finish (fun _ => AllSpan audio start) (AllSpan audio start) := by
  unfold Windowing.finish
  split
  · exact Ensures.throw h.2
  · exact (h.emit (Nat.le_refl _) .end 0).ensures.next fun w' windows' h' => Ensures.return_ h'.2

end Windows

namespace Listener

variable {D : Detector} {audio : List Sample} {start : Nat} {l : Listener D}

/-- What the windows received and what the detector holds is the audio, all of whose pending
part belongs to the run. -/
def Continues (audio : List Sample) (start : Nat) (l : Listener D) : Prop :=
  ∃ received, received ++ l.held = audio ∧ Fills received start l.windows

/-- A state of the listener and the windows of the call that led to it. -/
def Heard (audio : List Sample) (start : Nat) (l : Listener D) (windows : List SpeechWindow) : Prop :=
  Continues audio start l ∧ AllSpan audio start windows

theorem classify_cuts {received : List Sample} {w : Windowing} (h : Fills received start w)
    (frames : List Frame) :
    Ensures [] (runAll classify w frames) (Cuts (received ++ heard frames) start)
      (AllSpan (received ++ heard frames) start) := by
  refine Ensures.runAll (P := fun done s out => Cuts (received ++ heard done) start s out) ?_ ⟨?_, ?_⟩
  · intro before frame after s out hSplit hBefore
    have hStep := hBefore.append frame.samples (1 / 2 ≤ frame.probability)
    have hHeard : received ++ heard before ++ frame.samples = received ++ heard (before ++ [frame]) := by
      simp [heard]
    have hPrefix : heard (before ++ [frame]) <+: heard frames :=
      ⟨heard after, by rw [hSplit, ← heard_append, List.append_assoc, List.singleton_append]⟩
    rw [hHeard] at hStep
    exact ⟨hStep.done, fun hFail =>
      (hStep.failed hFail).mono ((List.prefix_append_right_inj received).mpr hPrefix)⟩
  · simpa [heard] using h
  · exact AllSpan.nil

theorem Continues.hear (h : Continues audio start l) {v : VoiceActivity D} {input : List Sample}
    {o : VoiceOutcome D} (hVad : l.vad = some v) (hPasses : Passes v input o) :
    Ensures [] (l.hear o) (Heard (audio ++ input) start) (AllSpan (audio ++ input) start) := by
  obtain ⟨received, hAudio, hFills⟩ := h
  rw [held, hVad] at hAudio
  have hCuts := classify_cuts hFills o.emitted
  have hPrefix : received ++ heard o.emitted <+: audio ++ input := by
    rw [← hAudio, List.append_assoc, List.prefix_append_right_inj]
    cases hError : o.error with
    | some e => simpa using hPasses.failed (by simp [hError])
    | none =>
      have hDone := hPasses.done hError
      rw [List.nil_append] at hDone
      rw [hDone]
      exact List.prefix_append _ _
  unfold Listener.hear
  dsimp only
  cases hError : (runAll classify l.windows o.emitted).error with
  | some e =>
    refine ⟨fun hNone => absurd hNone (Option.some_ne_none e), fun _ => ?_⟩
    exact (hCuts.failed (by simp [hError])).mono hPrefix
  | none =>
    obtain ⟨hFills', hAll⟩ := hCuts.done hError
    refine ⟨fun hNone => ⟨⟨_, ?_, hFills'⟩, hAll.mono hPrefix⟩, fun _ => hAll.mono hPrefix⟩
    have hDone := hPasses.done hNone
    rw [List.nil_append] at hDone
    rw [← hAudio, List.append_assoc, List.append_assoc, hDone]
    rfl

theorem Continues.append (h : Continues audio start l) (samples : List Sample) :
    Ensures [] (l.append samples) (Heard (audio ++ samples) start) (AllSpan (audio ++ samples) start) := by
  unfold Listener.append
  cases hVad : l.vad with
  | some v => exact h.hear hVad (VoiceActivity.append_passes v samples)
  | none =>
    obtain ⟨received, hAudio, hFills⟩ := h
    simp only [held, hVad, List.append_nil] at hAudio
    subst hAudio
    have hCuts := Cuts.append ⟨hFills, AllSpan.nil⟩ samples true
    refine ⟨fun hOk => ⟨⟨received ++ samples, ?_, (hCuts.done hOk).1⟩, (hCuts.done hOk).2⟩, hCuts.failed⟩
    simp [held, cut, hVad]

/-- Before the windows are cut or closed, the detector has handed over what it held. -/
theorem Continues.drain (h : Continues audio start l) {f : VoiceActivity D → VoiceOutcome D}
    (hPasses : ∀ v, Passes v [] (f v)) (hEmpty : ∀ v, (f v).error = none → (f v).state.pending = []) :
    Ensures [] (l.drain f)
      (fun l' windows => l'.held = [] ∧ Cuts audio start l'.windows windows)
      (AllSpan audio start) := by
  unfold Listener.drain
  cases hVad : l.vad with
  | some v =>
    have hHear := h.hear hVad (hPasses v)
    rw [List.append_nil] at hHear
    refine ⟨fun hOk => ?_, hHear.failed⟩
    obtain ⟨⟨received, hAudio, hFills⟩, hAll⟩ := hHear.done hOk
    obtain ⟨hVoice, -, hEq⟩ := hear_error_none hOk
    have hHeld : (l.hear (f v)).state.held = [] := by
      rw [hEq]
      exact hEmpty v hVoice
    rw [hHeld, List.append_nil] at hAudio
    exact ⟨hHeld, hAudio ▸ hFills, hAll⟩
  | none =>
    obtain ⟨received, hAudio, hFills⟩ := h
    have hHeld : l.held = [] := by rw [held, hVad]
    rw [hHeld, List.append_nil] at hAudio
    exact Ensures.return_ ⟨hHeld, hAudio ▸ hFills, AllSpan.nil⟩

theorem Continues.discontinuity (h : Continues audio start l) :
    Ensures [] l.discontinuity
      (fun l' windows => Continues audio audio.length l' ∧ AllSpan audio start windows)
      (AllSpan audio start) := by
  have hDrain := h.drain VoiceActivity.discontinuity_passes
    fun v hOk => (VoiceActivity.discontinuity_relays hOk).2
  refine hDrain.next fun l' windows hDrained => ?_
  obtain ⟨hHeld, hCuts⟩ := hDrained
  have hCut := hCuts.discontinuity
  refine ⟨fun hOk => ⟨⟨audio, ?_, (hCut.done hOk).1⟩, (hCut.done hOk).2⟩, hCut.failed⟩
  have hSame : (l'.cut l'.windows.discontinuity).state.held = l'.held := rfl
  rw [hSame, hHeld, List.append_nil]

theorem Continues.finish (h : Continues audio start l) :
    Ensures [] l.finish (fun _ => AllSpan audio start) (AllSpan audio start) := by
  have hDrain := h.drain VoiceActivity.finish_passes fun v hOk => (VoiceActivity.finish_relays hOk).2
  refine hDrain.next fun l' windows hDrained => ?_
  have hCut := hDrained.2.finish
  exact ⟨hCut.done, hCut.failed⟩

end Listener

end GrpcAsr.Media
