import GrpcAsr.Library.History
import GrpcAsr.Media.Pipeline
import GrpcAsr.Media.WindowInputs

/-!
# Windows are bounded and make progress

Every window fits the hard limit, a cut always brings new audio, and audio is repeated only
where a whole buffer was cut. Options that resolve therefore bound the number of windows by
the audio received.
-/

namespace GrpcAsr.Media

open Emitting

set_option autoImplicit false

namespace WindowBoundary

def isCut : WindowBoundary → Bool
  | fixed | pause | forced => true
  | «end» | discontinuity => false

/-- Cuts of a whole buffer, which leave the overlap for the next window. -/
def carries : WindowBoundary → Bool
  | fixed | forced => true
  | pause | «end» | discontinuity => false

end WindowBoundary

/-- The last window was cut fixed or forced, and no discontinuity came after it. -/
def Windowing.Carries (w : Windowing) (inputs : List WindowInput) : Prop :=
  ∃ before x later window, inputs = before ++ x :: later ∧
    ((w.took before).input x).emitted = [window] ∧ window.boundary.carries = true ∧
    (∀ y ∈ later, y ≠ .discontinuity) ∧ w.windows inputs = w.windows (before ++ [x])

/-- The bounds of a window stream after some inputs and of the windows the next one emits. -/
structure WindowBounds (policy : WindowPolicy) (w : Windowing) (inputs : List WindowInput) :
    Prop where
  buffer : (w.took inputs).buffer.length ≤ policy.maxSamples
  pushed : ∀ speech sample, (w.took inputs).Hears sample →
    ((w.took inputs).receive speech sample).buffer.length ≤ policy.maxSamples
  size : ∀ x, ∀ window ∈ ((w.took inputs).input x).emitted,
    window.samples.length ≤ policy.maxSamples
  progress : ∀ x, ∀ window ∈ ((w.took inputs).input x).emitted, window.boundary.isCut = true →
    policy.targetSamples - policy.overlapSamples ≤ window.newSamples.length
  repeats : ∀ x, ∀ window ∈ ((w.took inputs).input x).emitted,
    window.firstSample ≤ window.firstNewSample ∧
      (window.firstSample < window.firstNewSample → w.Carries inputs) ∧
      (w.Carries inputs → window.firstNewSample = window.firstSample + policy.overlapSamples)

namespace Windowing

variable {w : Windowing} {inputs : List WindowInput} {x : WindowInput}

theorem carries_emitted {window : SpeechWindow}
    (h : ((w.took inputs).input x).emitted = [window]) :
    w.Carries (inputs ++ [x]) ↔ window.boundary.carries = true := by
  constructor
  · rintro ⟨before, y, later, last, hSplit, hLast, hCarries, -, hWindows⟩
    rcases History.snoc_eq_append_cons.mp hSplit with ⟨rfl, rfl, rfl⟩ | ⟨middle, rfl, hInputs⟩
    · rw [hLast] at h
      cases h
      exact hCarries
    · have hMore : w.windows inputs = w.windows (before ++ [y]) ++
          (w.took (before ++ [y])).windows middle := by
        rw [hInputs, List.append_cons]
        exact output_append _ _ _ _
      rw [windows_snoc, h, hMore, List.append_assoc] at hWindows
      have hLength := congrArg List.length hWindows
      simp only [List.length_append, List.length_singleton] at hLength
      omega
  · intro hCarries
    exact ⟨inputs, x, [], window, rfl, h, hCarries, fun y hy => (nomatch hy), rfl⟩

theorem carries_quiet (h : ((w.took inputs).input x).emitted = []) :
    w.Carries (inputs ++ [x]) ↔ w.Carries inputs ∧ x ≠ .discontinuity := by
  have hSame : w.windows (inputs ++ [x]) = w.windows inputs := by
    rw [windows_snoc, h, List.append_nil]
  constructor
  · rintro ⟨before, y, later, last, hSplit, hLast, hCarries, hLater, hWindows⟩
    rcases History.snoc_eq_append_cons.mp hSplit with ⟨rfl, rfl, rfl⟩ | ⟨middle, rfl, rfl⟩
    · rw [hLast] at h
      cases h
    · refine ⟨⟨before, y, middle, last, rfl, hLast, hCarries, ?_, hSame.symm.trans hWindows⟩, ?_⟩
      · intro z hz
        exact hLater z (by simp [hz])
      · exact hLater x (by simp)
  · rintro ⟨⟨before, y, later, last, rfl, hLast, hCarries, hLater, hWindows⟩, hNot⟩
    refine ⟨before, y, later ++ [x], last, by simp, hLast, hCarries, ?_, hSame.trans hWindows⟩
    intro z hz
    rcases List.mem_append.mp hz with hz | hz
    · exact hLater z hz
    · rw [List.mem_singleton.mp hz]
      exact hNot

end Windowing

section Windows

variable {w : Windowing} {windows : List SpeechWindow} {x : WindowInput} {window : SpeechWindow}

/-- A window starts at the buffer and its new part where the last window ended. -/
theorem Sound.emitted_window (h : Sound w windows) (hMem : window ∈ (w.input x).emitted) :
    ∃ audio, Steady audio w windows ∧ window.firstSample = w.first ∧
      window.firstNewSample = w.committed ∧ window.samples.length ≤ w.policy.maxSamples ∧
      (window.boundary.isCut = true → w.policy.targetSamples ≤ window.samples.length) := by
  have hFinished := Windowing.open_of_emitted hMem
  obtain ⟨audio, hSteady⟩ := h.steady hFinished
  have hLimit := Sound.limit_le hSteady.buffered
  have hTaken := hSteady.taken hFinished x
  refine ⟨audio, hSteady, ?_⟩
  generalize w.input x = o at hMem hTaken
  cases hTaken with
  | refused hRefused => cases hMem
  | held hHeard hNone hShort => cases hMem
  | failed hHeard hAware hFail hNone hFull => cases hMem
  | @cut speech sample boundary count overlap hHeard hCut =>
    have hPushed := hSteady.pushed speech sample
    have hPolicy := receive_policy w speech sample
    obtain ⟨hTarget, hCount, -⟩ := Steady.cut_count (hSteady.buffered.receive speech sample) hCut
    rw [hPolicy] at hTarget
    cases List.mem_singleton.mp hMem
    simp only [Windowing.receive_first, Windowing.receive_committed, List.length_take, true_and]
    omega
  | interrupted hOpen =>
    cases rest_window hMem
    refine ⟨rfl, rfl, h.stopped, ?_⟩
    intro hCut
    cases hCut
  | closed hOpen hClosed hBuffer hPolicy hReceived hCommitted =>
    cases rest_window hMem
    refine ⟨rfl, rfl, h.stopped, ?_⟩
    intro hCut
    cases hCut

end Windows

/-- How far the buffer reaches back into audio that was already emitted. -/
structure Gap (w₀ : Windowing) (inputs : List WindowInput) (w : Windowing) : Prop where
  carried : w₀.Carries inputs → w.committed = w.first + w.policy.overlapSamples
  fresh : ¬w₀.Carries inputs → w.committed = w.first

namespace Gap

variable {w₀ w : Windowing} {inputs : List WindowInput}

theorem of_iff {more : List WindowInput} {v : Windowing} (h : Gap w₀ inputs w)
    (hCarries : w₀.Carries more ↔ w₀.Carries inputs) (hFirst : v.first = w.first)
    (hCommitted : v.committed = w.committed) (hPolicy : v.policy = w.policy) : Gap w₀ more v := by
  constructor
  · intro hMore
    rw [hFirst, hCommitted, hPolicy]
    exact h.carried (hCarries.mp hMore)
  · intro hMore
    rw [hFirst, hCommitted]
    exact h.fresh fun hInputs => hMore (hCarries.mpr hInputs)

theorem quiet_sample {speech : Bool} {sample : Sample}
    (h : ((w₀.took inputs).input (.sample speech sample)).emitted = []) :
    w₀.Carries (inputs ++ [.sample speech sample]) ↔ w₀.Carries inputs := by
  rw [Windowing.carries_quiet h]
  exact and_iff_left (fun hEq => by cases hEq)

/-- A cut leaves exactly its overlap behind the position it commits. -/
theorem publish {audio : List Sample} {windows : List SpeechWindow} {x : WindowInput}
    {v : Windowing} (hBuffered : Buffered audio v windows) {boundary : WindowBoundary}
    {count overlap : Nat} (hCut : v.Cut boundary count overlap)
    (hOutcome : (w₀.took inputs).input x = v.publish count boundary overlap) :
    Gap w₀ (inputs ++ [x]) (v.publish count boundary overlap).state := by
  have hPolicy := (WindowPolicy.bounded_iff _).mp hBuffered.policy
  have hEmitted := congrArg Outcome.emitted hOutcome
  have hIff := Windowing.carries_emitted hEmitted
  obtain ⟨hTarget, -, -⟩ := Steady.cut_count hBuffered hCut
  constructor
  · intro hCarries
    have hBoundary := hIff.mp hCarries
    simp only [Windowing.publish]
    cases hCut with
    | fixed hFixed hFull => omega
    | forced hAware hNone hSplit hFull => omega
    | pause hAware hFound => cases hBoundary
  · intro hNot
    simp only [Windowing.publish]
    cases hCut with
    | fixed hFixed hFull => exact absurd (hIff.mpr rfl) hNot
    | forced hAware hNone hSplit hFull => exact absurd (hIff.mpr rfl) hNot
    | pause hAware hFound => omega

theorem interrupted (hFinished : (w₀.took inputs).finished = false) {audio : List Sample}
    {windows : List SpeechWindow} (h : Buffered audio (w₀.took inputs) windows) :
    ¬w₀.Carries (inputs ++ [.discontinuity]) := by
  have hEmitted : ((w₀.took inputs).input .discontinuity).emitted =
      (w₀.took inputs).rest .discontinuity := by
    rw [Windowing.input, Steady.discontinuity_open h hFinished]
  intro hCarries
  unfold Windowing.rest at hEmitted
  split at hEmitted
  · cases (Windowing.carries_emitted hEmitted).mp hCarries
  · exact ((Windowing.carries_quiet hEmitted).mp hCarries).2 rfl

theorem input {windows : List SpeechWindow} (hSound : Sound (w₀.took inputs) windows)
    (h : Gap w₀ inputs (w₀.took inputs)) (x : WindowInput)
    (hOpen : ((w₀.took inputs).input x).state.finished = false) :
    Gap w₀ (inputs ++ [x]) ((w₀.took inputs).input x).state := by
  have hFinished := Windowing.open_of_next hOpen
  obtain ⟨audio, hSteady⟩ := hSound.steady hFinished
  have hTaken := hSteady.taken hFinished x
  generalize hOutcome : (w₀.took inputs).input x = o at hTaken hOpen
  have hEmitted := congrArg Outcome.emitted hOutcome
  cases hTaken with
  | refused hRefused =>
    rcases hRefused with hClosed | ⟨speech, sample, rfl, hFinite⟩
    · rw [hFinished] at hClosed
      cases hClosed
    · exact h.of_iff (quiet_sample hEmitted) rfl rfl rfl
  | held hHeard hNone hShort =>
    exact h.of_iff (quiet_sample hEmitted) (Windowing.receive_first ..)
      (Windowing.receive_committed ..) (receive_policy ..)
  | @cut speech sample boundary count overlap hHeard hCut =>
    exact publish (hSteady.buffered.receive speech sample) hCut hOutcome
  | failed hHeard hAware hFail hNone hFull => cases hOpen
  | interrupted _ =>
    have hNot := interrupted hFinished hSteady.buffered
    exact ⟨fun hCarries => absurd hCarries hNot, fun _ => rfl⟩
  | closed _ hClosed hBuffer hPolicy hReceived hCommitted =>
    rw [hClosed] at hOpen
    cases hOpen

end Gap

section Runs

variable {policy : WindowPolicy} {w : Windowing}

theorem Gap.run (h : Windowing.create policy = .ok w) (inputs : List WindowInput)
    (hOpen : (w.took inputs).finished = false) : Gap w inputs (w.took inputs) := by
  induction inputs using List.reverseRecOn with
  | nil =>
    obtain ⟨-, -, rfl⟩ := Windowing.create_eq_ok h
    refine ⟨?_, fun _ => rfl⟩
    rintro ⟨before, x, later, window, hSplit, -⟩
    simp at hSplit
  | append_singleton inputs x ih =>
    rw [Windowing.took_snoc] at hOpen ⊢
    exact Gap.input (Sound.run h inputs).1 (ih (Windowing.open_of_next hOpen)) x hOpen

theorem windowBounds_run (h : Windowing.create policy = .ok w) (inputs : List WindowInput) :
    WindowBounds policy w inputs := by
  obtain ⟨hSound, hPolicy⟩ := Sound.run h inputs
  refine ⟨?_, ?_, ?_, ?_, ?_⟩
  · rw [← hPolicy]
    exact hSound.stopped
  · intro speech sample hHeard
    obtain ⟨audio, hSteady⟩ := hSound.steady hHeard.1
    have hPushed := hSteady.pushed speech sample
    have hLimit := Sound.limit_le hSteady.buffered
    rw [← hPolicy]
    omega
  · intro x window hMem
    obtain ⟨audio, -, -, -, hSize, -⟩ := hSound.emitted_window hMem
    rw [← hPolicy]
    exact hSize
  · intro x window hMem hCut
    obtain ⟨audio, hSteady, hFirst, hNew, -, hTarget⟩ := hSound.emitted_window hMem
    have hOverlap := hSteady.buffered.overlap
    have hLong := hTarget hCut
    rw [SpeechWindow.newSamples, List.length_drop, hFirst, hNew, ← hPolicy]
    omega
  · intro x window hMem
    obtain ⟨audio, hSteady, hFirst, hNew, -, -⟩ := hSound.emitted_window hMem
    have hGap := Gap.run h inputs (Windowing.open_of_emitted hMem)
    rw [hFirst, hNew, ← hPolicy]
    refine ⟨hSteady.buffered.first_le, ?_, hGap.carried⟩
    intro hBack
    by_contra hNot
    have hSame := hGap.fresh hNot
    omega

end Runs

/-- Every window is a cut that advances, or belongs to a discontinuity or to the close. -/
structure Tally (discontinuities : Nat) (w : Windowing) (windows : List SpeechWindow) (cuts : Nat) :
    Prop where
  count : windows.length ≤ cuts + discontinuities + if w.finished then 1 else 0
  advance : (w.policy.targetSamples - w.policy.overlapSamples) * cuts ≤ w.committed
  committed : w.committed ≤ w.received

namespace Tally

variable {d cuts : Nat} {w : Windowing} {windows : List SpeechWindow}

theorem rest_length (w : Windowing) (boundary : WindowBoundary) : (w.rest boundary).length ≤ 1 := by
  unfold Windowing.rest
  split
  · exact Nat.le_refl 1
  · exact Nat.zero_le 1

theorem publish {audio : List Sample} {v : Windowing} (h : Tally d w windows cuts)
    (hOpen : w.finished = false) (hBuffered : Buffered audio v windows)
    (hPolicy : v.policy = w.policy) (hCommitted : v.committed = w.committed)
    {boundary : WindowBoundary} {count overlap : Nat} (hCut : v.Cut boundary count overlap) :
    Tally d (v.publish count boundary overlap).state
      (windows ++ (v.publish count boundary overlap).emitted) (cuts + 1) := by
  have hBounded := (WindowPolicy.bounded_iff _).mp hBuffered.policy
  have hLength := hBuffered.buffer_length
  have hOverlap := hBuffered.overlap
  have hFirst := hBuffered.first_le
  have hReach := hBuffered.committed_le
  obtain ⟨hTarget, hCount, -⟩ := Steady.cut_count hBuffered hCut
  have hAdvance := h.advance
  have hWindows := h.count
  rw [hOpen] at hWindows
  rw [← hPolicy, ← hCommitted] at hAdvance
  refine ⟨?_, ?_, ?_⟩
  · simp only [Windowing.publish, List.length_append, List.length_singleton]
    simp only [Bool.false_eq_true, if_false] at hWindows
    omega
  · simp only [Windowing.publish, Nat.mul_add, Nat.mul_one]
    omega
  · simp only [Windowing.publish]
    omega

theorem input (h : Tally d w windows cuts) (hSound : Sound w windows) (x : WindowInput) :
    ∃ more, Tally (d + [x].count .discontinuity) (w.input x).state
      (windows ++ (w.input x).emitted) more := by
  cases hFinished : w.finished with
  | true =>
    obtain ⟨e, hRefused⟩ := Windowing.input_closed hFinished x
    have hCount := h.count
    rw [hRefused, List.append_nil]
    refine ⟨cuts, ?_, h.advance, h.committed⟩
    simp only
    omega
  | false =>
    obtain ⟨audio, hSteady⟩ := hSound.steady hFinished
    have hTaken := hSteady.taken hFinished x
    have hCount := h.count
    rw [hFinished] at hCount
    simp only [Bool.false_eq_true, if_false] at hCount
    generalize w.input x = o at hTaken
    cases hTaken with
    | refused hRefused =>
      rw [List.append_nil]
      exact ⟨cuts, by omega, h.advance, h.committed⟩
    | @held speech sample hHeard hNone hShort =>
      have hReach := h.committed
      refine ⟨cuts, ?_, ?_, ?_⟩
      · rw [List.append_nil]
        omega
      · rw [receive_policy, Windowing.receive_committed]
        exact h.advance
      · rw [Windowing.receive_committed, Windowing.receive_received]
        omega
    | @cut speech sample boundary count overlap hHeard hCut =>
      exact ⟨cuts + 1, publish h hFinished (hSteady.buffered.receive speech sample)
        (receive_policy ..) (Windowing.receive_committed ..) hCut⟩
    | @failed speech sample hHeard hAware hFail hNone hFull =>
      have hReach := h.committed
      refine ⟨cuts, ?_, ?_, ?_⟩
      · rw [List.append_nil]
        omega
      · simp only [receive_policy, Windowing.receive_committed]
        exact h.advance
      · simp only [Windowing.receive_committed, Windowing.receive_received]
        omega
    | interrupted hOpen =>
      have hRest := rest_length w .discontinuity
      refine ⟨cuts, ?_, h.advance.trans h.committed, Nat.le_refl _⟩
      simp only [List.length_append, List.count_singleton_self]
      omega
    | closed hOpen hClosed hBuffer hPolicy hReceived hCommitted =>
      have hRest := rest_length w .end
      refine ⟨cuts, ?_, ?_, ?_⟩
      · simp only [List.length_append, hClosed, if_true]
        omega
      · rw [hPolicy, hCommitted]
        exact h.advance.trans h.committed
      · rw [hReceived, hCommitted]

theorem run {policy : WindowPolicy} (h : Windowing.create policy = .ok w)
    (inputs : List WindowInput) :
    ∃ cuts, Tally (inputs.count .discontinuity) (w.took inputs) (w.windows inputs) cuts := by
  induction inputs using List.reverseRecOn with
  | nil => exact ⟨0, Nat.zero_le _, Nat.zero_le _, by
      obtain ⟨-, -, rfl⟩ := Windowing.create_eq_ok h
      exact Nat.le_refl _⟩
  | append_singleton inputs x ih =>
    obtain ⟨cuts, hTally⟩ := ih
    rw [Windowing.took_snoc, Windowing.windows_snoc, List.count_append]
    exact hTally.input (Sound.run h inputs).1 x

end Tally

namespace SpeechOptions

/-- The policy with its products taken in full. -/
def exactPolicy (o : SpeechOptions) : WindowPolicy :=
  let w := o.window
  let b := w.speechBoundary.getD default
  { targetSamples := w.windowMs.getD 0 * 16
    maxSamples := (if w.strategy = .speechAware then b.maxWindowMs else w.windowMs.getD 0) * 16
    overlapSamples := w.overlapMs.getD 0 * 16
    minPauseSamples := b.minPauseMs * 16
    paddingSamples := b.speechPaddingMs * 16
    speechAware := w.strategy = .speechAware
    failWithoutPause := b.noPausePolicy = .fail }

/-- What resolution has checked of the durations. -/
structure Durations (w : SpeechWindowing) : Prop where
  window : w.windowMs.getD 0 ≤ 30000
  overlap : w.overlapMs.getD 0 < w.windowMs.getD 0
  advance : minimumAdvanceMs ≤ w.windowMs.getD 0 - w.overlapMs.getD 0
  maximum : w.strategy = .speechAware → (w.speechBoundary.getD default).maxWindowMs ≤ 30000
  pause : (w.speechBoundary.getD default).minPauseMs ≤ 30000
  padding : (w.speechBoundary.getD default).speechPaddingMs ≤ 15000

theorem checkBoundary_ok {vadConfigured : Bool} {w : SpeechWindowing}
    (h : checkBoundary vadConfigured w = .ok ()) :
    (w.strategy = .speechAware → (w.speechBoundary.getD default).maxWindowMs ≤ 30000) ∧
      (w.speechBoundary.getD default).minPauseMs ≤ 30000 ∧
      (w.speechBoundary.getD default).speechPaddingMs ≤ 15000 := by
  unfold checkBoundary at h
  split at h
  · obtain ⟨_, -, h⟩ := bind_eq_ok h
    obtain ⟨_, -, h⟩ := bind_eq_ok h
    have hBounds := require_eq_ok.mp h
    simp only [Bool.and_eq_true, decide_eq_true_eq] at hBounds
    exact ⟨fun _ => hBounds.1.1.1.2, hBounds.1.1.2, hBounds.1.2⟩
  · rename_i hFixed
    have hNone := require_eq_ok.mp h
    simp only [Bool.and_eq_true, Option.isNone_iff_eq_none] at hNone
    rw [hNone.2]
    exact ⟨fun hAware => absurd hAware hFixed, Nat.zero_le _, Nat.zero_le _⟩

theorem resolve_durations {vadConfigured : Bool} {o resolved : SpeechOptions}
    (h : o.resolve vadConfigured = .ok resolved) : Durations resolved.window := by
  unfold resolve at h
  obtain ⟨_, -, h⟩ := bind_eq_ok h
  obtain ⟨_, hWindow, h⟩ := bind_eq_ok h
  obtain ⟨_, hAdvance, h⟩ := bind_eq_ok h
  obtain ⟨_, hBoundary, h⟩ := bind_eq_ok h
  have hLengths := require_eq_ok.mp hWindow
  have hStep := require_eq_ok.mp hAdvance
  obtain ⟨hMaximum, hPause, hPadding⟩ := checkBoundary_ok hBoundary
  simp only [Bool.and_eq_true, decide_eq_true_eq] at hLengths hStep
  split at h
  · cases h
    exact ⟨hLengths.1.2, hLengths.2, hStep, hMaximum, hPause, hPadding⟩
  · cases h
  · cases h

theorem policy_exact {o : SpeechOptions} (h : Durations o.window) : o.policy = o.exactPolicy := by
  have hWindow := h.window
  have hOverlap := h.overlap
  have hPause := h.pause
  have hPadding := h.padding
  have hMaximum : (if o.window.strategy = .speechAware then
      (o.window.speechBoundary.getD default).maxWindowMs else o.window.windowMs.getD 0) ≤ 30000 := by
    split
    · rename_i hAware
      exact h.maximum hAware
    · exact hWindow
  have hExact : ∀ value : Nat, value ≤ 30000 → value * 16 % 2 ^ 32 = value * 16 := by
    intro value hValue
    apply Nat.mod_eq_of_lt
    omega
  simp only [policy, exactPolicy]
  rw [hExact _ hWindow, hExact _ hMaximum, hExact _ (by omega), hExact _ hPause,
    hExact _ (by omega)]

end SpeechOptions

/-- Bounds and progress of every window stream, and the number of windows of resolved options. -/
theorem windows_bounded_and_advance :
    (∀ (policy : WindowPolicy) (w : Windowing), Windowing.create policy = .ok w →
      ∀ inputs, WindowBounds policy w inputs) ∧
    (∀ (w : Windowing) (calls : List StreamCall),
      after Windowing.perform w calls = w.took (w.inputs calls) ∧
        output Windowing.perform w calls = w.windows (w.inputs calls)) ∧
    ∀ (vadConfigured : Bool) (o resolved : SpeechOptions),
      o.resolve vadConfigured = .ok resolved →
        resolved.policy = resolved.exactPolicy ∧
        ∃ w, Windowing.create resolved.policy = .ok w ∧
          ∀ inputs, (w.windows inputs).length ≤
            (w.heard inputs).length / 1600 + inputs.count .discontinuity + 1 := by
  refine ⟨fun policy w h inputs => windowBounds_run h inputs, fun w calls => w.run_inputs calls, ?_⟩
  intro vadConfigured o resolved hResolve
  have hDurations := SpeechOptions.resolve_durations hResolve
  obtain ⟨w, hCreate⟩ := SpeechOptions.resolve_policy hResolve
  refine ⟨SpeechOptions.policy_exact hDurations, w, hCreate, ?_⟩
  intro inputs
  obtain ⟨cuts, hTally⟩ := Tally.run hCreate inputs
  have hCount := hTally.count
  have hAdvance := hTally.advance
  have hCommitted := hTally.committed
  rw [Windowing.took_received hCreate] at hCommitted
  rw [(Sound.run hCreate inputs).2, SpeechOptions.policy_exact hDurations] at hAdvance
  have hStep : 1600 ≤ resolved.exactPolicy.targetSamples - resolved.exactPolicy.overlapSamples := by
    have hMs := hDurations.advance
    simp only [minimumAdvanceMs] at hMs
    simp only [SpeechOptions.exactPolicy]
    omega
  have hCuts : cuts ≤ (w.heard inputs).length / 1600 := by
    rw [Nat.le_div_iff_mul_le (by decide), Nat.mul_comm]
    exact (Nat.mul_le_mul_right cuts hStep).trans (hAdvance.trans hCommitted)
  have hClose : (if (w.took inputs).finished then 1 else 0) ≤ 1 := by
    split
    · exact Nat.le_refl 1
    · exact Nat.zero_le 1
  omega

/-- Ten-second speech-aware windows with a second of overlap and pauses of 300 ms. -/
def pausedSpeech : SpeechOptions :=
  { modelId := ascii "whisper"
    language := []
    task := .transcribe
    wordTimestamps := true
    windowing := some
      { windowMs := some 10000
        overlapMs := some 1000
        strategy := .speechAware
        speechBoundary := some
          { vadModelId := ascii "silero-v5.1.2"
            minPauseMs := 300
            speechPaddingMs := 100
            maxWindowMs := 20000
            noPausePolicy := .splitWithOverlap } }
    reconcileTranscript := some true }

theorem windows_bounded_and_advance_paused :
    (∀ inputs, WindowBounds pausedSpeech.policy
      ⟨pausedSpeech.policy, [], 0, 0, 0, 0, 0, false, false⟩ inputs) ∧
      pausedSpeech.policy = pausedSpeech.exactPolicy :=
  ⟨windows_bounded_and_advance.1 pausedSpeech.policy _ (by decide +kernel),
    (windows_bounded_and_advance.2.2 true pausedSpeech pausedSpeech (by decide +kernel)).1⟩

end GrpcAsr.Media
