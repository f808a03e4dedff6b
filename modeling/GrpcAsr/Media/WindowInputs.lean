import GrpcAsr.Media.Framing
import GrpcAsr.Media.WindowProtocol

/-!
# A window stream, one input at a time

The calls of a window stream are spans of samples, discontinuities and the close. A span is
taken sample by sample up to the first refusal, so every run of calls is a run of single
inputs; the caller may go on after any exception. `Taken` lists what one input can do.
-/

namespace GrpcAsr.Media

open Emitting

set_option autoImplicit false

inductive WindowInput
  | sample (speech : Bool) (sample : Sample)
  | discontinuity
  | finish
  deriving DecidableEq, Repr

inductive StreamCall
  | append (samples : List Sample) (speech : Bool)
  | discontinuity
  | finish

namespace Windowing

def input (w : Windowing) : WindowInput → WindowOutcome
  | .sample speech sample => w.append [sample] speech
  | .discontinuity => w.discontinuity
  | .finish => w.finish

def perform (w : Windowing) : StreamCall → WindowOutcome
  | .append samples speech => w.append samples speech
  | .discontinuity => w.discontinuity
  | .finish => w.finish

def took (w : Windowing) (inputs : List WindowInput) : Windowing := after input w inputs

def windows (w : Windowing) (inputs : List WindowInput) : List SpeechWindow := output input w inputs

@[simp] theorem took_nil (w : Windowing) : w.took [] = w := rfl

@[simp] theorem windows_nil (w : Windowing) : w.windows [] = [] := rfl

@[simp] theorem took_snoc (w : Windowing) (inputs : List WindowInput) (x : WindowInput) :
    w.took (inputs ++ [x]) = ((w.took inputs).input x).state := after_snoc _ _ _ _

@[simp] theorem windows_snoc (w : Windowing) (inputs : List WindowInput) (x : WindowInput) :
    w.windows (inputs ++ [x]) = w.windows inputs ++ ((w.took inputs).input x).emitted :=
  output_snoc _ _ _ _

theorem took_cons (w : Windowing) (x : WindowInput) (inputs : List WindowInput) :
    w.took (x :: inputs) = (w.input x).state.took inputs := rfl

theorem windows_cons (w : Windowing) (x : WindowInput) (inputs : List WindowInput) :
    w.windows (x :: inputs) = (w.input x).emitted ++ (w.input x).state.windows inputs := rfl

/-- The samples of a span up to and including the first one that is refused. -/
def spanInputs (speech : Bool) : Windowing → List Sample → List WindowInput
  | _, [] => []
  | w, sample :: samples =>
    .sample speech sample ::
      match (w.append [sample] speech).error with
      | some _ => []
      | none => spanInputs speech (w.append [sample] speech).state samples

def callInputs (w : Windowing) : StreamCall → List WindowInput
  | .append samples speech => spanInputs speech w samples
  | .discontinuity => [.discontinuity]
  | .finish => [.finish]

def inputs : Windowing → List StreamCall → List WindowInput
  | _, [] => []
  | w, call :: calls => w.callInputs call ++ inputs (w.perform call).state calls

theorem append_closed {w : Windowing} (h : w.finished = true) (samples : List Sample)
    (speech : Bool) :
    w.append samples speech = ⟨w, [], some (.logicError "audio after window close")⟩ := by
  rw [append, if_pos h]

theorem append_single {w : Windowing} (h : w.finished = false) (sample : Sample) (speech : Bool) :
    w.append [sample] speech = appendSample speech w sample := by
  rw [append_eq h, runAll_singleton]

/-- A span does to the stream what its samples do one by one. -/
theorem span_inputs (speech : Bool) (samples : List Sample) (w : Windowing) :
    (w.append samples speech).state = w.took (spanInputs speech w samples) ∧
      (w.append samples speech).emitted = w.windows (spanInputs speech w samples) := by
  induction samples generalizing w with
  | nil =>
    cases hFinished : w.finished with
    | true =>
      rw [append_closed hFinished]
      exact ⟨rfl, rfl⟩
    | false =>
      rw [append_eq hFinished]
      exact ⟨rfl, rfl⟩
  | cons sample samples ih =>
    cases hFinished : w.finished with
    | true =>
      simp only [spanInputs, append_closed hFinished, took_cons, windows_cons, input, took_nil,
        windows_nil, List.append_nil, and_self]
    | false =>
      rw [append_cons hFinished, spanInputs]
      cases hError : (w.append [sample] speech).error with
      | some e =>
        rw [Outcome.next_of_error hError]
        simp only [took_cons, windows_cons, input, took_nil, windows_nil, List.append_nil, and_self]
      | none =>
        obtain ⟨hState, hEmitted⟩ := ih (w.append [sample] speech).state
        rw [Outcome.next_of_none hError]
        exact ⟨hState, congrArg _ hEmitted⟩

theorem call_inputs (w : Windowing) (call : StreamCall) :
    (w.perform call).state = w.took (w.callInputs call) ∧
      (w.perform call).emitted = w.windows (w.callInputs call) := by
  cases call with
  | append samples speech => exact span_inputs speech samples w
  | discontinuity => exact ⟨rfl, (List.append_nil _).symm⟩
  | finish => exact ⟨rfl, (List.append_nil _).symm⟩

/-- A run of calls is a run of single inputs. -/
theorem run_inputs (w : Windowing) (calls : List StreamCall) :
    after perform w calls = w.took (w.inputs calls) ∧
      output perform w calls = w.windows (w.inputs calls) := by
  induction calls generalizing w with
  | nil => exact ⟨rfl, rfl⟩
  | cons call calls ih =>
    obtain ⟨hState, hEmitted⟩ := w.call_inputs call
    obtain ⟨hAfter, hOutput⟩ := ih (w.perform call).state
    rw [inputs, took, windows, after_append, output_append]
    change after perform (w.perform call).state calls = after input (w.took (w.callInputs call)) _ ∧
      (w.perform call).emitted ++ output perform (w.perform call).state calls =
        w.windows (w.callInputs call) ++ output input (w.took (w.callInputs call)) _
    rw [← hState, ← hEmitted]
    exact ⟨hAfter, congrArg _ hOutput⟩

/-- Whether a sample is received: it is finite and the stream is open. -/
def Hears (w : Windowing) (sample : Sample) : Prop := w.finished = false ∧ sample.isFinite = true

/-- The emission of a window that has something new. -/
def publish (w : Windowing) (count : Nat) (boundary : WindowBoundary) (overlap : Nat) :
    WindowOutcome :=
  ⟨{ w with
      number := w.number + 1
      committed := w.first + count
      buffer := w.buffer.drop (count - overlap)
      first := w.first + (count - overlap) },
    [⟨w.number + 1, w.first, w.committed, boundary, w.buffer.take count⟩], none⟩

/-- The window that flushes the whole buffer, if anything in it is new. -/
def rest (w : Windowing) (boundary : WindowBoundary) : List SpeechWindow :=
  if w.committed < w.received then
    [⟨w.number + 1, w.first, w.committed, boundary, w.buffer⟩]
  else []

/-- A pause long enough, with both margins observed around a cut at or after the target. -/
def PauseFound (w : Windowing) : Prop :=
  w.inSilence = true ∧ w.policy.minPauseSamples ≤ w.received - w.silenceStart ∧
    w.pauseCut + w.policy.paddingSamples ≤ w.received

inductive Cut (w : Windowing) : WindowBoundary → Nat → Nat → Prop
  | fixed (hFixed : w.policy.speechAware = false)
      (hFull : w.buffer.length = w.policy.targetSamples) :
      Cut w .fixed w.buffer.length w.policy.overlapSamples
  | pause (hAware : w.policy.speechAware = true) (hFound : w.PauseFound) :
      Cut w .pause (w.pauseCut - w.first) 0
  | forced (hAware : w.policy.speechAware = true) (hNone : ¬w.PauseFound)
      (hSplit : w.policy.failWithoutPause = false)
      (hFull : w.buffer.length = w.policy.maxSamples) :
      Cut w .forced w.buffer.length w.policy.overlapSamples

/-- Everything one input can do to a window stream. -/
inductive Taken (w : Windowing) : WindowInput → WindowOutcome → Prop
  | refused {x : WindowInput} {e : Exception}
      (hRefused : w.finished = true ∨ ∃ speech sample, x = .sample speech sample ∧
        sample.isFinite = false) : Taken w x ⟨w, [], some e⟩
  | held {speech : Bool} {sample : Sample} (hHeard : w.Hears sample)
      (hNone : w.policy.speechAware = true → ¬(w.receive speech sample).PauseFound)
      (hShort : (w.receive speech sample).buffer.length < w.policy.limit) :
      Taken w (.sample speech sample) ⟨w.receive speech sample, [], none⟩
  | cut {speech : Bool} {sample : Sample} {boundary : WindowBoundary} {count overlap : Nat}
      (hHeard : w.Hears sample) (hCut : (w.receive speech sample).Cut boundary count overlap) :
      Taken w (.sample speech sample) ((w.receive speech sample).publish count boundary overlap)
  | failed {speech : Bool} {sample : Sample} (hHeard : w.Hears sample)
      (hAware : w.policy.speechAware = true) (hFail : w.policy.failWithoutPause = true)
      (hNone : ¬(w.receive speech sample).PauseFound)
      (hFull : (w.receive speech sample).buffer.length = w.policy.maxSamples) :
      Taken w (.sample speech sample)
        ⟨{ w.receive speech sample with finished := true }, [],
          some (.lengthError "no speech pause before hard window limit")⟩
  | interrupted (hOpen : w.finished = false) :
      Taken w .discontinuity
        ⟨{ w with
            number := w.number + (w.rest .discontinuity).length
            committed := w.received
            buffer := []
            first := w.received
            inSilence := false }, w.rest .discontinuity, none⟩
  | closed {v : Windowing} (hOpen : w.finished = false) (hFinished : v.finished = true)
      (hBuffer : v.buffer = []) (hPolicy : v.policy = w.policy) (hReceived : v.received = w.received)
      (hCommitted : v.committed = w.received) : Taken w .finish ⟨v, w.rest .end, none⟩

theorem emit_publish {w : Windowing} {count : Nat} (h : w.committed < w.first + count)
    (hFirst : w.first ≤ w.committed) (boundary : WindowBoundary) (overlap : Nat) :
    w.emit count boundary overlap = w.publish count boundary overlap := by
  rw [emit, if_neg (by omega)]
  rfl

end Windowing

/-- A window stream that can go on: it has room for one more sample before its limit. -/
structure Steady (audio : List Sample) (w : Windowing) (windows : List SpeechWindow) : Prop where
  buffered : Buffered audio w windows
  room : w.buffer.length < w.policy.limit

namespace Steady

variable {audio : List Sample} {w : Windowing} {windows : List SpeechWindow}

theorem initial {policy : WindowPolicy} (h : Windowing.create policy = .ok w) : Steady [] w [] := by
  have hRoom := (Ready.initial h).room
  exact ⟨Buffered.initial h, by omega⟩

/-- A pause found or a full buffer cuts off at least the target, with something new in it. -/
theorem cut_count (h : Buffered audio w windows) {boundary : WindowBoundary}
    {count overlap : Nat} (hCut : w.Cut boundary count overlap) :
    w.policy.targetSamples ≤ count ∧ count ≤ w.buffer.length ∧ overlap ≤ w.policy.overlapSamples := by
  have hPolicy := (WindowPolicy.bounded_iff _).mp h.policy
  have hLength := h.buffer_length
  cases hCut with
  | fixed hFixed hFull => omega
  | forced hAware hNone hSplit hFull => omega
  | pause hAware hFound =>
    obtain ⟨-, -, hMargin⟩ := hFound
    have hTarget : w.first + w.policy.targetSamples ≤ w.pauseCut := Nat.le_max_left _ _
    omega

theorem emit_cut (h : Buffered audio w windows) {boundary : WindowBoundary}
    {count overlap : Nat} (hCut : w.Cut boundary count overlap) :
    w.emit count boundary overlap = w.publish count boundary overlap := by
  have hPolicy := (WindowPolicy.bounded_iff _).mp h.policy
  have hOverlap := h.overlap
  obtain ⟨hTarget, -, -⟩ := cut_count h hCut
  exact Windowing.emit_publish (by omega) h.first_le boundary overlap

theorem cutAtPause_found (h : Buffered audio w windows) (hFound : w.PauseFound) :
    w.cutAtPause = w.emit (w.pauseCut - w.first) .pause 0 := by
  have hPolicy := (WindowPolicy.bounded_iff _).mp h.policy
  have hTarget : w.first + w.policy.targetSamples ≤ w.pauseCut := Nat.le_max_left _ _
  obtain ⟨hSilence, hLong, hMargin⟩ := hFound
  rw [Windowing.cutAtPause, if_pos]
  simp only [hSilence, hLong, hMargin, Bool.and_eq_true, decide_eq_true_eq, true_and, and_true]
  omega

theorem cutAtPause_none (hNone : ¬w.PauseFound) : w.cutAtPause = ⟨w, [], none⟩ := by
  rw [Windowing.cutAtPause, if_neg]
  intro hPause
  simp only [Bool.and_eq_true, decide_eq_true_eq] at hPause
  exact hNone ⟨hPause.1.1.1, hPause.1.1.2, hPause.2⟩

theorem cutAtLimit_room (hRoom : w.buffer.length < w.policy.maxSamples) :
    w.cutAtLimit = ⟨w, [], none⟩ := by
  rw [Windowing.cutAtLimit, if_neg (by omega)]

/-- The remainder after a pause cut is below the limit. -/
theorem cutAtLimit_pause (h : Buffered audio w windows) (hAware : w.policy.speechAware = true)
    (hFound : w.PauseFound) (hFits : w.buffer.length ≤ w.policy.maxSamples) :
    (w.publish (w.pauseCut - w.first) .pause 0).next Windowing.cutAtLimit =
      w.publish (w.pauseCut - w.first) .pause 0 := by
  have hPolicy := (WindowPolicy.bounded_iff _).mp h.policy
  obtain ⟨hTarget, hCount, -⟩ := cut_count h (.pause hAware hFound)
  rw [Outcome.next_of_none rfl, cutAtLimit_room]
  · rfl
  · simp only [Windowing.publish, List.length_drop]
    omega

theorem pushed (h : Steady audio w windows) (speech : Bool) (sample : Sample) :
    (w.receive speech sample).buffer.length ≤ w.policy.limit := by
  have hRoom := h.room
  simp only [Windowing.receive_buffer, List.length_append, List.length_singleton]
  omega

theorem sample_fixed (h : Steady audio w windows) {speech : Bool} {sample : Sample}
    (hHeard : w.Hears sample) (hFixed : w.policy.speechAware = false) :
    w.Taken (.sample speech sample) (w.input (.sample speech sample)) := by
  have hPushed := h.pushed speech sample
  have hNext := h.buffered.receive speech sample
  have hPolicy := receive_policy w speech sample
  rw [Windowing.input, Windowing.append_single hHeard.1]
  simp only [Windowing.appendSample, hHeard.2, hFixed, Windowing.cutFixed, Bool.not_true,
    Bool.false_eq_true, if_false, Bool.not_false, if_true]
  split
  · rename_i hFull
    have hCut : (w.receive speech sample).Cut .fixed (w.receive speech sample).buffer.length
        (w.receive speech sample).policy.overlapSamples :=
      .fixed (hPolicy ▸ hFixed) hFull
    rw [emit_cut hNext hCut]
    exact .cut hHeard hCut
  · rename_i hShort
    apply Windowing.Taken.held hHeard
    · intro hAware
      rw [hFixed] at hAware
      cases hAware
    · rw [hPolicy] at hShort
      simp only [WindowPolicy.limit, hFixed, Bool.false_eq_true, if_false] at hPushed ⊢
      omega

section Aware

variable {speech : Bool} {sample : Sample}

theorem appendSample_heard (hHeard : w.Hears sample) (hAware : w.policy.speechAware = true) :
    w.input (.sample speech sample) =
      (w.receive speech sample).cutAtPause.next Windowing.cutAtLimit := by
  rw [Windowing.input, Windowing.append_single hHeard.1]
  simp only [Windowing.appendSample, hHeard.2, hAware, Bool.not_true, Bool.false_eq_true, if_false]

theorem input_pause (h : Steady audio w windows) (hHeard : w.Hears sample)
    (hAware : w.policy.speechAware = true) (hFound : (w.receive speech sample).PauseFound) :
    w.input (.sample speech sample) = (w.receive speech sample).publish
      ((w.receive speech sample).pauseCut - (w.receive speech sample).first) .pause 0 := by
  have hPolicy := receive_policy w speech sample
  have hPushed := h.pushed speech sample
  have hNext := h.buffered.receive speech sample
  have hStill : (w.receive speech sample).policy.speechAware = true := hPolicy ▸ hAware
  simp only [WindowPolicy.limit, hAware, if_true] at hPushed
  rw [appendSample_heard hHeard hAware, cutAtPause_found hNext hFound,
    emit_cut hNext (.pause hStill hFound), cutAtLimit_pause hNext hStill hFound (hPolicy ▸ hPushed)]

theorem input_held (hHeard : w.Hears sample) (hAware : w.policy.speechAware = true)
    (hNone : ¬(w.receive speech sample).PauseFound)
    (hShort : (w.receive speech sample).buffer.length < w.policy.maxSamples) :
    w.input (.sample speech sample) = ⟨w.receive speech sample, [], none⟩ := by
  have hPolicy := receive_policy w speech sample
  rw [appendSample_heard hHeard hAware, cutAtPause_none hNone, Outcome.nil_next,
    cutAtLimit_room (hPolicy ▸ hShort)]

theorem input_forced (h : Steady audio w windows) (hHeard : w.Hears sample)
    (hAware : w.policy.speechAware = true) (hNone : ¬(w.receive speech sample).PauseFound)
    (hFull : (w.receive speech sample).buffer.length = w.policy.maxSamples)
    (hSplit : w.policy.failWithoutPause = false) :
    w.input (.sample speech sample) = (w.receive speech sample).publish
      (w.receive speech sample).buffer.length .forced
      (w.receive speech sample).policy.overlapSamples := by
  have hPolicy := receive_policy w speech sample
  have hCut : (w.receive speech sample).Cut .forced (w.receive speech sample).buffer.length
      (w.receive speech sample).policy.overlapSamples :=
    .forced (hPolicy ▸ hAware) hNone (hPolicy ▸ hSplit) (hPolicy ▸ hFull)
  have hSame : (w.receive speech sample).policy.failWithoutPause = false := hPolicy ▸ hSplit
  have hLimit : (w.receive speech sample).policy.maxSamples ≤
      (w.receive speech sample).buffer.length := hPolicy ▸ Nat.le_of_eq hFull.symm
  rw [appendSample_heard hHeard hAware, cutAtPause_none hNone, Outcome.nil_next,
    Windowing.cutAtLimit, if_pos hLimit, if_neg (by simp [hSame]),
    emit_cut (h.buffered.receive speech sample) hCut]

theorem input_failed (hHeard : w.Hears sample) (hAware : w.policy.speechAware = true)
    (hNone : ¬(w.receive speech sample).PauseFound)
    (hFull : (w.receive speech sample).buffer.length = w.policy.maxSamples)
    (hFail : w.policy.failWithoutPause = true) :
    w.input (.sample speech sample) =
      ⟨{ w.receive speech sample with finished := true }, [],
        some (.lengthError "no speech pause before hard window limit")⟩ := by
  have hPolicy := receive_policy w speech sample
  have hSame : (w.receive speech sample).policy.failWithoutPause = true := hPolicy ▸ hFail
  have hLimit : (w.receive speech sample).policy.maxSamples ≤
      (w.receive speech sample).buffer.length := hPolicy ▸ Nat.le_of_eq hFull.symm
  rw [appendSample_heard hHeard hAware, cutAtPause_none hNone, Outcome.nil_next,
    Windowing.cutAtLimit, if_pos hLimit, if_pos hSame]

theorem sample_aware (h : Steady audio w windows) (hHeard : w.Hears sample)
    (hAware : w.policy.speechAware = true) :
    w.Taken (.sample speech sample) (w.input (.sample speech sample)) := by
  have hPolicy := receive_policy w speech sample
  have hPushed := h.pushed speech sample
  by_cases hFound : (w.receive speech sample).PauseFound
  · rw [h.input_pause hHeard hAware hFound]
    exact .cut hHeard (.pause (hPolicy ▸ hAware) hFound)
  · by_cases hShort : (w.receive speech sample).buffer.length < w.policy.maxSamples
    · rw [input_held hHeard hAware hFound hShort]
      apply Windowing.Taken.held hHeard (fun _ => hFound)
      rwa [WindowPolicy.limit, if_pos hAware]
    · have hFull : (w.receive speech sample).buffer.length = w.policy.maxSamples := by
        rw [WindowPolicy.limit, if_pos hAware] at hPushed
        omega
      cases hFail : w.policy.failWithoutPause with
      | true =>
        rw [input_failed hHeard hAware hFound hFull hFail]
        exact .failed hHeard hAware hFail hFound hFull
      | false =>
        rw [h.input_forced hHeard hAware hFound hFull hFail]
        exact .cut hHeard (.forced (hPolicy ▸ hAware) hFound (hPolicy ▸ hFail) (hPolicy ▸ hFull))

end Aware

theorem emit_whole (h : Buffered audio w windows) (boundary : WindowBoundary) :
    (w.emit w.buffer.length boundary 0).emitted = w.rest boundary ∧
      (w.emit w.buffer.length boundary 0).state.number = w.number + (w.rest boundary).length ∧
      (w.emit w.buffer.length boundary 0).state.committed = w.received := by
  have hLength := h.buffer_length
  have hFirst := h.first_le
  have hCommitted := h.committed_le
  unfold Windowing.emit Windowing.rest
  by_cases hNew : w.committed < w.received
  · rw [if_neg (by omega), if_pos hNew]
    refine ⟨by rw [List.take_length], rfl, ?_⟩
    simp only
    omega
  · rw [if_pos (by omega), if_neg hNew]
    refine ⟨rfl, rfl, ?_⟩
    simp only
    omega

theorem emit_frame (w : Windowing) (count : Nat) (boundary : WindowBoundary) (overlap : Nat) :
    (w.emit count boundary overlap).state = { w with
      number := (w.emit count boundary overlap).state.number
      committed := (w.emit count boundary overlap).state.committed
      buffer := (w.emit count boundary overlap).state.buffer
      first := (w.emit count boundary overlap).state.first } := by
  unfold Windowing.emit
  split <;> rfl

theorem discontinuity_open (h : Buffered audio w windows) (hOpen : w.finished = false) :
    w.discontinuity = ⟨{ w with
      number := w.number + (w.rest .discontinuity).length
      committed := w.received
      buffer := []
      first := w.received
      inSilence := false }, w.rest .discontinuity, none⟩ := by
  obtain ⟨hEmitted, hNumber, hCommitted⟩ := emit_whole h .discontinuity
  rw [Windowing.discontinuity, if_neg (by simp [hOpen]),
    Outcome.next_of_none (w.emit_error _ _ _), List.append_nil, hEmitted, emit_frame]
  simp only [hNumber, hCommitted]

theorem finish_taken (h : Buffered audio w windows) (hOpen : w.finished = false) :
    w.Taken .finish w.finish := by
  obtain ⟨hEmitted, -, hCommitted⟩ := emit_whole h .end
  rw [Windowing.finish, if_neg (by simp [hOpen]), Outcome.next_of_none (w.emit_error _ _ _),
    List.append_nil, hEmitted]
  apply Windowing.Taken.closed hOpen
  · rfl
  · rfl
  · exact emit_policy ..
  · rw [emit_frame]
  · exact hCommitted

/-- The inversion of one input of an open stream. -/
theorem taken (h : Steady audio w windows) (hOpen : w.finished = false) (x : WindowInput) :
    w.Taken x (w.input x) := by
  cases x with
  | discontinuity =>
    rw [Windowing.input, discontinuity_open h.buffered hOpen]
    exact .interrupted hOpen
  | finish => exact finish_taken h.buffered hOpen
  | sample speech sample =>
    cases hFinite : sample.isFinite with
    | false =>
      rw [Windowing.input, Windowing.append_single hOpen, Windowing.appendSample, hFinite,
        if_pos (by decide)]
      exact .refused (Or.inr ⟨speech, sample, rfl, hFinite⟩)
    | true =>
      cases hAware : w.policy.speechAware with
      | false => exact h.sample_fixed ⟨hOpen, hFinite⟩ hAware
      | true => exact h.sample_aware ⟨hOpen, hFinite⟩ hAware

end Steady

namespace Windowing

/-- A closed stream refuses everything. -/
theorem input_closed {w : Windowing} (h : w.finished = true) (x : WindowInput) :
    ∃ e, w.input x = ⟨w, [], some e⟩ := by
  cases x with
  | sample speech sample => exact ⟨_, append_closed h [sample] speech⟩
  | discontinuity => exact ⟨_, by rw [input, discontinuity, if_pos h]⟩
  | finish => exact ⟨_, by rw [input, finish, if_pos h]⟩

end Windowing

theorem Windowing.open_of_next {w : Windowing} {x : WindowInput}
    (h : (w.input x).state.finished = false) : w.finished = false := by
  cases hFinished : w.finished with
  | false => rfl
  | true =>
    obtain ⟨e, hRefused⟩ := input_closed hFinished x
    rw [hRefused, hFinished] at h
    cases h

theorem Windowing.open_of_emitted {w : Windowing} {x : WindowInput} {window : SpeechWindow}
    (h : window ∈ (w.input x).emitted) : w.finished = false := by
  cases hFinished : w.finished with
  | false => rfl
  | true =>
    obtain ⟨e, hRefused⟩ := input_closed hFinished x
    rw [hRefused] at h
    cases h

theorem rest_window {w : Windowing} {window : SpeechWindow} {boundary : WindowBoundary}
    (hMem : window ∈ w.rest boundary) :
    window = ⟨w.number + 1, w.first, w.committed, boundary, w.buffer⟩ := by
  unfold Windowing.rest at hMem
  split at hMem
  · exact List.mem_singleton.mp hMem
  · cases hMem

/-- An open stream is steady; a closed one keeps a bounded buffer. -/
structure Sound (w : Windowing) (windows : List SpeechWindow) : Prop where
  steady : w.finished = false → ∃ audio, Steady audio w windows
  stopped : w.buffer.length ≤ w.policy.maxSamples

namespace Sound

variable {w : Windowing} {windows : List SpeechWindow}

theorem initial {policy : WindowPolicy} (h : Windowing.create policy = .ok w) : Sound w [] := by
  obtain ⟨-, -, rfl⟩ := Windowing.create_eq_ok h
  exact ⟨fun _ => ⟨[], Steady.initial h⟩, Nat.zero_le _⟩

theorem limit_le {audio : List Sample} (h : Buffered audio w windows) :
    w.policy.limit ≤ w.policy.maxSamples := by
  have hPolicy := (WindowPolicy.bounded_iff _).mp h.policy
  unfold WindowPolicy.limit
  split <;> omega

theorem of_steady {audio : List Sample} (h : Steady audio w windows) : Sound w windows := by
  have hLimit := limit_le h.buffered
  have hRoom := h.room
  exact ⟨fun _ => ⟨audio, h⟩, by omega⟩

/-- A cut keeps what follows the window and the overlap, which is below the limit. -/
theorem publish {audio : List Sample} (h : Buffered audio w windows)
    (hFits : w.buffer.length ≤ w.policy.limit) {boundary : WindowBoundary} {count overlap : Nat}
    (hCut : w.Cut boundary count overlap) :
    Steady audio (w.publish count boundary overlap).state
      (windows ++ (w.publish count boundary overlap).emitted) := by
  have hPolicy := (WindowPolicy.bounded_iff _).mp h.policy
  obtain ⟨hTarget, hCount, hOverlap⟩ := Steady.cut_count h hCut
  refine ⟨?_, ?_⟩
  · rw [← Steady.emit_cut h hCut]
    exact (h.emit boundary overlap hCount hOverlap (by omega)).1
  · simp only [Windowing.publish, List.length_drop]
    have hLimit : w.policy.targetSamples ≤ w.policy.limit := by
      unfold WindowPolicy.limit
      split <;> omega
    cases hCut <;> omega

theorem input (h : Sound w windows) (x : WindowInput) :
    Sound (w.input x).state (windows ++ (w.input x).emitted) ∧
      (w.input x).state.policy = w.policy := by
  cases hFinished : w.finished with
  | true =>
    obtain ⟨e, hRefused⟩ := Windowing.input_closed hFinished x
    rw [hRefused, List.append_nil]
    exact ⟨h, rfl⟩
  | false =>
    obtain ⟨audio, hSteady⟩ := h.steady hFinished
    have hBuffered := hSteady.buffered
    have hTaken := hSteady.taken hFinished x
    generalize w.input x = o at hTaken
    cases hTaken with
    | refused hRefused =>
      rw [List.append_nil]
      exact ⟨h, rfl⟩
    | @held speech sample hHeard hNone hShort =>
      have hPolicy := receive_policy w speech sample
      rw [List.append_nil]
      exact ⟨of_steady ⟨hBuffered.receive speech sample, hPolicy ▸ hShort⟩, hPolicy⟩
    | @cut speech sample boundary count overlap hHeard hCut =>
      have hPolicy := receive_policy w speech sample
      have hPushed := hSteady.pushed speech sample
      exact ⟨of_steady (publish (hBuffered.receive speech sample) (hPolicy ▸ hPushed) hCut), hPolicy⟩
    | @failed speech sample hHeard hAware hFail hNone hFull =>
      have hPolicy := receive_policy w speech sample
      refine ⟨⟨?_, ?_⟩, hPolicy⟩
      · intro hOpen
        cases hOpen
      · simp only [hPolicy]
        exact Nat.le_of_eq hFull
    | interrupted hOpen =>
      have hEq := Steady.discontinuity_open hBuffered hOpen
      have hNext := hBuffered.discontinuity (by rw [hEq])
      have hRoom := hSteady.room
      rw [hEq] at hNext
      refine ⟨of_steady ⟨hNext, ?_⟩, rfl⟩
      simp only [List.length_nil]
      omega
    | closed hOpen hClosed hBuffer hPolicy hReceived hCommitted =>
      refine ⟨⟨?_, ?_⟩, hPolicy⟩
      · intro hOpen
        rw [hClosed] at hOpen
        cases hOpen
      · simp only [hBuffer]
        exact Nat.zero_le _

/-- Every run of an accepted policy, exceptions included. -/
theorem run {policy : WindowPolicy} (h : Windowing.create policy = .ok w)
    (inputs : List WindowInput) :
    Sound (w.took inputs) (w.windows inputs) ∧ (w.took inputs).policy = policy := by
  induction inputs using List.reverseRecOn with
  | nil =>
    refine ⟨initial h, ?_⟩
    obtain ⟨-, -, rfl⟩ := Windowing.create_eq_ok h
    rfl
  | append_singleton inputs x ih =>
    obtain ⟨hSound, hPolicy⟩ := ih
    obtain ⟨hNext, hSame⟩ := hSound.input x
    rw [Windowing.took_snoc, Windowing.windows_snoc]
    exact ⟨hNext, hSame.trans hPolicy⟩

end Sound

namespace Windowing

/-- The classification of the sample an input adds, if it is received. -/
def classes (w : Windowing) : WindowInput → List Bool
  | .sample speech sample => if w.finished || !sample.isFinite then [] else [speech]
  | .discontinuity => []
  | .finish => []

/-- The classifications of the samples received, in order. -/
def heard : Windowing → List WindowInput → List Bool
  | _, [] => []
  | w, x :: inputs => w.classes x ++ heard (w.input x).state inputs

theorem heard_append (w : Windowing) (inputs more : List WindowInput) :
    w.heard (inputs ++ more) = w.heard inputs ++ (w.took inputs).heard more := by
  induction inputs generalizing w with
  | nil => rfl
  | cons x inputs ih => rw [List.cons_append, heard, ih, heard, took_cons, List.append_assoc]

@[simp] theorem heard_snoc (w : Windowing) (inputs : List WindowInput) (x : WindowInput) :
    w.heard (inputs ++ [x]) = w.heard inputs ++ (w.took inputs).classes x := by
  rw [heard_append, heard, heard, List.append_nil]

theorem classes_heard {w : Windowing} {sample : Sample} (h : w.Hears sample) (speech : Bool) :
    w.classes (.sample speech sample) = [speech] := by
  rw [classes, h.1, h.2]
  rfl

theorem classes_refused {w : Windowing} {x : WindowInput}
    (h : w.finished = true ∨ ∃ speech sample, x = .sample speech sample ∧ sample.isFinite = false) :
    w.classes x = [] := by
  rcases h with hFinished | ⟨speech, sample, rfl, hFinite⟩
  · cases x with
    | sample speech sample =>
      rw [classes, hFinished]
      rfl
    | discontinuity => rfl
    | finish => rfl
  · rw [classes, hFinite]
    simp

theorem input_received {w : Windowing} {windows : List SpeechWindow} (h : Sound w windows)
    (x : WindowInput) : (w.input x).state.received = w.received + (w.classes x).length := by
  cases hFinished : w.finished with
  | true =>
    obtain ⟨e, hRefused⟩ := input_closed hFinished x
    rw [hRefused, classes_refused (Or.inl hFinished)]
    rfl
  | false =>
    obtain ⟨audio, hSteady⟩ := h.steady hFinished
    have hTaken := hSteady.taken hFinished x
    generalize w.input x = o at hTaken
    cases hTaken with
    | refused hRefused =>
      rw [classes_refused hRefused]
      rfl
    | held hHeard hNone hShort =>
      rw [classes_heard hHeard]
      exact receive_received ..
    | @cut speech sample boundary count overlap hHeard hCut =>
      rw [classes_heard hHeard]
      exact receive_received w speech sample
    | @failed speech sample hHeard hAware hFail hNone hFull =>
      rw [classes_heard hHeard]
      exact receive_received w speech sample
    | interrupted hOpen => rfl
    | closed hOpen hClosed hBuffer hPolicy hReceived hCommitted => exact hReceived

theorem took_received {policy : WindowPolicy} {w : Windowing} (h : create policy = .ok w)
    (inputs : List WindowInput) : (w.took inputs).received = (w.heard inputs).length := by
  induction inputs using List.reverseRecOn with
  | nil =>
    obtain ⟨-, -, rfl⟩ := create_eq_ok h
    rfl
  | append_singleton inputs x ih =>
    rw [took_snoc, input_received (Sound.run h inputs).1, heard_snoc, List.length_append, ih]

end Windowing

end GrpcAsr.Media
