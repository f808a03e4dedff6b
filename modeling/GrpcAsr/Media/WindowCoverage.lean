import Mathlib.Data.List.Induction
import GrpcAsr.Media.Windowing

/-!
# Emitted windows tile the received audio

`Tiles` is the specification: numbered windows, each a literal slice of the audio,
whose new parts follow one another without gap or repetition. `Buffered` ties the four
positions and the buffer of `Windowing` to the audio received and the windows emitted.
Every operation keeps it, so any run ends with windows that cover its whole input.
-/

namespace GrpcAsr.Media

open Emitting

set_option autoImplicit false

def lastEnd (windows : List SpeechWindow) : Nat := (windows.getLast?.map SpeechWindow.end).getD 0

def SpeechWindow.newSamples (window : SpeechWindow) : List Sample :=
  window.samples.drop (window.firstNewSample - window.firstSample)

@[simp] theorem lastEnd_nil : lastEnd [] = 0 := rfl

@[simp] theorem lastEnd_snoc (windows : List SpeechWindow) (window : SpeechWindow) :
    lastEnd (windows ++ [window]) = window.end := by
  simp [lastEnd]

structure Tiles (audio : List Sample) (windows : List SpeechWindow) : Prop where
  numbered : ∀ i (h : i < windows.length), windows[i].number = i + 1
  slice : ∀ window ∈ windows,
    window.samples = (audio.drop window.firstSample).take window.samples.length
  bounds : ∀ window ∈ windows,
    window.firstSample ≤ window.firstNewSample ∧ window.firstNewSample < window.end
  contiguous : ∀ i (h : i < windows.length), windows[i].firstNewSample = lastEnd (windows.take i)

theorem Tiles.nil (audio : List Sample) : Tiles audio [] where
  numbered i h := by cases h
  slice window h := by cases h
  bounds window h := by cases h
  contiguous i h := by cases h

theorem Tiles.end_le {audio : List Sample} {windows : List SpeechWindow} (h : Tiles audio windows)
    {window : SpeechWindow} (hMem : window ∈ windows) : window.end ≤ audio.length := by
  have hLength := congrArg List.length (h.slice window hMem)
  have hBounds := h.bounds window hMem
  simp only [List.length_take, List.length_drop, SpeechWindow.end] at hLength hBounds ⊢
  omega

theorem Tiles.extend {audio : List Sample} {windows : List SpeechWindow} (h : Tiles audio windows)
    (more : List Sample) : Tiles (audio ++ more) windows where
  numbered := h.numbered
  slice window hMem := by
    have hEnd := h.end_le hMem
    have hSlice := h.slice window hMem
    simp only [SpeechWindow.end] at hEnd
    rw [List.drop_append_of_le_length (by omega), List.take_append_of_le_length (by
      rw [List.length_drop]
      omega)]
    exact hSlice
  bounds := h.bounds
  contiguous := h.contiguous

theorem Tiles.snoc {audio : List Sample} {windows : List SpeechWindow} (h : Tiles audio windows)
    {window : SpeechWindow} (hNumber : window.number = windows.length + 1)
    (hSlice : window.samples = (audio.drop window.firstSample).take window.samples.length)
    (hBounds : window.firstSample ≤ window.firstNewSample ∧ window.firstNewSample < window.end)
    (hStart : window.firstNewSample = lastEnd windows) : Tiles audio (windows ++ [window]) where
  numbered i hi := by
    rw [List.getElem_append]
    split
    · exact h.numbered i _
    · rename_i hLast
      simp only [List.length_append, List.length_singleton] at hi
      simp only [List.getElem_singleton, hNumber]
      omega
  slice other hMem := by
    rcases List.mem_append.mp hMem with hMem | hMem
    · exact h.slice other hMem
    · rw [List.mem_singleton.mp hMem]
      exact hSlice
  bounds other hMem := by
    rcases List.mem_append.mp hMem with hMem | hMem
    · exact h.bounds other hMem
    · rw [List.mem_singleton.mp hMem]
      exact hBounds
  contiguous i hi := by
    rw [List.getElem_append]
    split
    · rename_i hInside
      rw [List.take_append_of_le_length (by omega)]
      exact h.contiguous i hInside
    · rename_i hLast
      simp only [List.length_append, List.length_singleton] at hi
      have hEq : i = windows.length := by omega
      simp [hEq, hStart]

/-- The new parts of tiling windows, one after another, are the audio up to the last end. -/
theorem Tiles.newSamples_flatMap {audio : List Sample} {windows : List SpeechWindow}
    (h : Tiles audio windows) :
    windows.flatMap SpeechWindow.newSamples = audio.take (lastEnd windows) := by
  induction windows using List.reverseRecOn with
  | nil => simp
  | append_singleton windows window ih =>
    have hPrefix : Tiles audio windows :=
      { numbered := fun i hi => by
          have hNumber := h.numbered i (by simp only [List.length_append]; omega)
          rwa [List.getElem_append_left hi] at hNumber
        slice := fun other hMem => h.slice other (List.mem_append_left _ hMem)
        bounds := fun other hMem => h.bounds other (List.mem_append_left _ hMem)
        contiguous := fun i hi => by
          have hStart := h.contiguous i (by simp only [List.length_append]; omega)
          rwa [List.getElem_append_left hi, List.take_append_of_le_length (by omega)] at hStart }
    have hMem : window ∈ windows ++ [window] := List.mem_append_right _ (List.mem_singleton_self _)
    have hStart : window.firstNewSample = lastEnd windows := by
      simpa using h.contiguous windows.length (by simp)
    have hBounds := h.bounds window hMem
    have hNew : window.newSamples =
        (audio.drop (lastEnd windows)).take (window.end - lastEnd windows) := by
      have hFrom : window.firstSample + (window.firstNewSample - window.firstSample) =
          lastEnd windows := by omega
      have hCount : window.samples.length - (window.firstNewSample - window.firstSample) =
          window.end - lastEnd windows := by
        simp only [SpeechWindow.end]
        omega
      rw [SpeechWindow.newSamples, h.slice window hMem, List.drop_take, List.drop_drop, hFrom,
        hCount]
    have hJoin : audio.take (lastEnd windows) ++
        (audio.drop (lastEnd windows)).take (window.end - lastEnd windows) =
        audio.take window.end := by
      rw [← List.take_add]
      congr 1
      omega
    rw [List.flatMap_append, ih hPrefix, lastEnd_snoc, ← hJoin, ← hNew]
    simp

namespace Windowing

section Receive

variable (w : Windowing) (speech : Bool) (sample : Sample)

@[simp] theorem receive_first : (w.receive speech sample).first = w.first := by
  unfold receive
  split
  · rfl
  · split <;> rfl

@[simp] theorem receive_committed : (w.receive speech sample).committed = w.committed := by
  unfold receive
  split
  · rfl
  · split <;> rfl

@[simp] theorem receive_received : (w.receive speech sample).received = w.received + 1 := by
  unfold receive
  split
  · rfl
  · split <;> rfl

@[simp] theorem receive_buffer : (w.receive speech sample).buffer = w.buffer ++ [sample] := by
  unfold receive
  split
  · rfl
  · split <;> rfl

end Receive

end Windowing

structure Buffered (audio : List Sample) (w : Windowing) (windows : List SpeechWindow) : Prop where
  tiles : Tiles audio windows
  committed : lastEnd windows = w.committed
  number : w.number = windows.length
  received : w.received = audio.length
  buffer : w.buffer = audio.drop w.first
  first_le : w.first ≤ w.committed
  committed_le : w.committed ≤ w.received
  overlap : w.committed ≤ w.first + w.policy.overlapSamples
  policy : w.policy.bounded = true

theorem WindowPolicy.bounded_iff (policy : WindowPolicy) : policy.bounded = true ↔
    0 < policy.targetSamples ∧ policy.targetSamples ≤ policy.maxSamples ∧
      policy.maxSamples ≤ 16000 * 30 ∧ policy.overlapSamples < policy.targetSamples := by
  simp only [WindowPolicy.bounded, Bool.and_eq_true, bne_iff_ne, decide_eq_true_eq, and_assoc]
  exact and_congr_left fun _ => Nat.pos_iff_ne_zero.symm

theorem Windowing.create_eq_ok {policy : WindowPolicy} {w : Windowing}
    (h : Windowing.create policy = .ok w) :
    policy.bounded = true ∧ (policy.speechAware = true → policy.pausesValid = true) ∧
      w = ⟨policy, [], 0, 0, 0, 0, 0, false, false⟩ := by
  unfold Windowing.create at h
  split at h
  · cases h
  · rename_i hBounded
    split at h
    · cases h
    · rename_i hPauses
      cases h
      refine ⟨by simpa using hBounded, ?_, rfl⟩
      intro hAware
      simpa [hAware] using hPauses

theorem Buffered.initial {policy : WindowPolicy} {w : Windowing}
    (h : Windowing.create policy = .ok w) : Buffered [] w [] := by
  obtain ⟨hBounded, -, rfl⟩ := Windowing.create_eq_ok h
  exact ⟨Tiles.nil [], rfl, rfl, rfl, rfl, Nat.le_refl _, Nat.le_refl _, Nat.zero_le _, hBounded⟩

section Operations

variable {audio : List Sample} {w : Windowing} {windows : List SpeechWindow}

theorem Buffered.buffer_length (h : Buffered audio w windows) :
    w.buffer.length = w.received - w.first := by
  rw [h.buffer, List.length_drop, h.received]

theorem Windowing.emit_error (w : Windowing) (count : Nat) (boundary : WindowBoundary)
    (overlap : Nat) : (w.emit count boundary overlap).error = none := by
  unfold Windowing.emit
  split <;> rfl

/-- Emission commits everything up to its end and keeps exactly the overlap buffered. -/
theorem Buffered.emit (h : Buffered audio w windows) {count : Nat}
    (boundary : WindowBoundary) (overlap : Nat) (hCount : count ≤ w.buffer.length)
    (hOverlap : overlap ≤ w.policy.overlapSamples) (hShort : overlap ≤ count) :
    Buffered audio (w.emit count boundary overlap).state
        (windows ++ (w.emit count boundary overlap).emitted) ∧
      (w.emit count boundary overlap).state.committed = max w.committed (w.first + count) := by
  have hFirst := h.first_le
  have hCommitted := h.committed_le
  have hLength := h.buffer_length
  unfold Windowing.emit
  split
  · rename_i hSkip
    refine ⟨by simpa using h, ?_⟩
    simp only
    omega
  · rename_i hEmit
    have hTaken : (w.buffer.take count).length = count := by
      rw [List.length_take]
      omega
    refine ⟨⟨?_, ?_, ?_, h.received, ?_, ?_, ?_, ?_, h.policy⟩, ?_⟩
    · apply h.tiles.snoc
      · simp only [h.number]
      · simp only [hTaken]
        rw [h.buffer]
      · simp only [SpeechWindow.end, hTaken]
        omega
      · exact h.committed.symm
    · simp only [lastEnd_snoc, SpeechWindow.end, hTaken]
    · simp only [List.length_append, List.length_singleton, h.number]
    · simp only [h.buffer, List.drop_drop]
    · simp only
      omega
    · simp only
      omega
    · simp only
      omega
    · simp only
      omega

theorem Buffered.receive (h : Buffered audio w windows) (speech : Bool) (sample : Sample) :
    Buffered (audio ++ [sample]) (w.receive speech sample) windows := by
  have hFirst := h.first_le
  have hCommitted := h.committed_le
  have hReceived := h.received
  have hPushed : w.buffer ++ [sample] = (audio ++ [sample]).drop w.first := by
    rw [h.buffer, List.drop_append_of_le_length (by omega)]
  unfold Windowing.receive
  split
  · exact ⟨h.tiles.extend _, h.committed, h.number, by simp [hReceived], hPushed, h.first_le,
      Nat.le_succ_of_le h.committed_le, h.overlap, h.policy⟩
  · split
    · exact ⟨h.tiles.extend _, h.committed, h.number, by simp [hReceived], hPushed, h.first_le,
        Nat.le_succ_of_le h.committed_le, h.overlap, h.policy⟩
    · exact ⟨h.tiles.extend _, h.committed, h.number, by simp [hReceived], hPushed, h.first_le,
        Nat.le_succ_of_le h.committed_le, h.overlap, h.policy⟩

theorem Buffered.cutFixed (h : Buffered audio w windows) :
    Buffered audio w.cutFixed.state (windows ++ w.cutFixed.emitted) := by
  have hPolicy := (WindowPolicy.bounded_iff _).mp h.policy
  unfold Windowing.cutFixed
  split
  · exact (h.emit .fixed _ (Nat.le_refl _) (Nat.le_refl _) (by omega)).1
  · simpa using h

theorem Buffered.cutAtPause (h : Buffered audio w windows) :
    Buffered audio w.cutAtPause.state (windows ++ w.cutAtPause.emitted) := by
  have hLength := h.buffer_length
  unfold Windowing.cutAtPause
  split
  · rename_i hPause
    simp only [Bool.and_eq_true, decide_eq_true_eq] at hPause
    exact (h.emit .pause _ (by omega) (Nat.zero_le _) (Nat.zero_le _)).1
  · simpa using h

theorem Buffered.cutAtLimit (h : Buffered audio w windows) :
    Buffered audio w.cutAtLimit.state (windows ++ w.cutAtLimit.emitted) := by
  have hPolicy := (WindowPolicy.bounded_iff _).mp h.policy
  unfold Windowing.cutAtLimit
  split
  · split
    · simpa using (⟨h.tiles, h.committed, h.number, h.received, h.buffer, h.first_le,
        h.committed_le, h.overlap, h.policy⟩ :
        Buffered audio { w with finished := true } windows)
    · exact (h.emit .forced _ (Nat.le_refl _) (Nat.le_refl _) (by omega)).1
  · simpa using h

theorem Windowing.cutAtPause_error (w : Windowing) : w.cutAtPause.error = none := by
  unfold Windowing.cutAtPause
  split
  · exact w.emit_error _ _ _
  · rfl

/-- A refused sample is not received; every other one is, whatever is cut behind it. -/
theorem Buffered.appendSample (h : Buffered audio w windows) (speech : Bool) (sample : Sample) :
    Buffered (audio ++ if sample.isFinite then [sample] else [])
      (Windowing.appendSample speech w sample).state
      (windows ++ (Windowing.appendSample speech w sample).emitted) := by
  unfold Windowing.appendSample
  cases hFinite : sample.isFinite with
  | false => simpa using h
  | true =>
    have hReceived := h.receive speech sample
    simp only [Bool.not_true, Bool.false_eq_true, if_false, if_true]
    split
    · exact hReceived.cutFixed
    · rw [Outcome.next_of_none (Windowing.cutAtPause_error _), ← List.append_assoc]
      exact hReceived.cutAtPause.cutAtLimit

theorem Windowing.emit_finished (w : Windowing) (count : Nat) (boundary : WindowBoundary)
    (overlap : Nat) : (w.emit count boundary overlap).state.finished = w.finished := by
  unfold Windowing.emit
  split <;> rfl

theorem Windowing.appendSample_finite {speech : Bool} {w : Windowing} {sample : Sample}
    (h : (Windowing.appendSample speech w sample).error = none) : sample.isFinite = true := by
  cases hFinite : sample.isFinite with
  | true => rfl
  | false =>
    rw [Windowing.appendSample, hFinite] at h
    cases h

theorem Buffered.append (h : Buffered audio w windows) {samples : List Sample} {speech : Bool}
    (hOk : (w.append samples speech).error = none) :
    Buffered (audio ++ samples) (w.append samples speech).state
      (windows ++ (w.append samples speech).emitted) := by
  unfold Windowing.append at hOk ⊢
  split at hOk
  · cases hOk
  · rename_i hOpen
    rw [if_neg hOpen]
    apply runAll_tracks (P := fun done s out => Buffered (audio ++ done) s out) _ samples [] w
      windows (by simpa using h) hOk
    intro done s sample out hDone hSample
    have hFinite := Windowing.appendSample_finite hSample
    have hNext := hDone.appendSample speech sample
    rwa [hFinite, if_pos rfl, List.append_assoc] at hNext

theorem Buffered.discontinuity (h : Buffered audio w windows)
    (hOk : w.discontinuity.error = none) :
    Buffered audio w.discontinuity.state (windows ++ w.discontinuity.emitted) := by
  unfold Windowing.discontinuity at hOk ⊢
  split at hOk
  · cases hOk
  · rename_i hOpen
    obtain ⟨hEmit, hCommitted⟩ := h.emit .discontinuity 0 (Nat.le_refl _)
      (Nat.zero_le _) (Nat.zero_le _)
    have hLength := h.buffer_length
    have hFirst := h.first_le
    have hReach := h.committed_le
    rw [if_neg hOpen, Outcome.next_of_none (w.emit_error _ _ _), List.append_nil]
    refine ⟨hEmit.tiles, hEmit.committed, hEmit.number, hEmit.received, ?_, ?_, hEmit.committed_le,
      ?_, hEmit.policy⟩
    · simp only
      rw [hEmit.received, List.drop_length]
    · simp only
      have hReceived := hEmit.received.trans h.received.symm
      omega
    · simp only
      have := hEmit.committed_le
      omega

theorem Buffered.call (h : Buffered audio w windows) (call : WindowCall)
    (hOk : (w.call call).error = none) :
    Buffered (audio ++ call.audio) (w.call call).state (windows ++ (w.call call).emitted) := by
  cases call with
  | append samples speech => exact h.append hOk
  | discontinuity =>
    simp only [WindowCall.audio, List.append_nil]
    exact h.discontinuity hOk

theorem Buffered.run (h : Buffered audio w windows) {calls : List WindowCall}
    (hOk : (w.run calls).error = none) :
    Buffered (audio ++ calls.flatMap WindowCall.audio) (w.run calls).state
      (windows ++ (w.run calls).emitted) := by
  apply runAll_tracks
    (P := fun done s out => Buffered (audio ++ done.flatMap WindowCall.audio) s out) _ calls [] w
    windows (by simpa using h) hOk
  intro done s call out hDone hCall
  simpa [List.append_assoc] using hDone.call call hCall

theorem Buffered.finish (h : Buffered audio w windows) (hOk : w.finish.error = none) :
    Tiles audio (windows ++ w.finish.emitted) ∧
      lastEnd (windows ++ w.finish.emitted) = audio.length := by
  unfold Windowing.finish at hOk ⊢
  split at hOk
  · cases hOk
  · rename_i hOpen
    obtain ⟨hEmit, hCommitted⟩ := h.emit .end 0 (Nat.le_refl _)
      (Nat.zero_le _) (Nat.zero_le _)
    have hLength := h.buffer_length
    have hFirst := h.first_le
    have hReach := h.committed_le
    have hReceived := h.received
    rw [if_neg hOpen, Outcome.next_of_none (w.emit_error _ _ _), List.append_nil]
    refine ⟨hEmit.tiles, ?_⟩
    rw [hEmit.committed, hCommitted]
    omega

end Operations

end GrpcAsr.Media
