import GrpcAsr.Library.History
import GrpcAsr.Media.WindowInputs

/-!
# Cuts inside pauses

`Admits` says from the classified samples alone that a pause allows a cut. A pause cut is
always admitted. One sample brings at most one cut, though: when a long pause is confirmed
at once, the remainder may admit a second cut that speech on the next sample takes away.
-/

namespace GrpcAsr.Media

open Emitting

set_option autoImplicit false

namespace Windowing

variable (w : Windowing) (inputs : List WindowInput)

/-- A position at or after every discontinuity. -/
def Since (s : Nat) : Prop :=
  ∀ before later, inputs = before ++ .discontinuity :: later → (w.heard before).length ≤ s

/-- Everything received from position `s` on is non-speech without a discontinuity. -/
def Quiet (s : Nat) : Prop :=
  w.Since inputs s ∧ ∀ i, s ≤ i → i < (w.heard inputs).length → (w.heard inputs)[i]? = some false

/-- A cut at `c` of a window from `first` is allowed after these inputs. -/
def Admits (first c : Nat) : Prop :=
  ∃ s, w.Quiet inputs s ∧ w.policy.minPauseSamples ≤ (w.heard inputs).length - s ∧
    s + w.policy.paddingSamples ≤ c ∧ c + w.policy.paddingSamples ≤ (w.heard inputs).length ∧
    first + w.policy.targetSamples ≤ c

/-- No speech sample is received while the pause before it still admits a cut. -/
def Resumes : Prop :=
  ∀ before sample later, inputs = before ++ .sample true sample :: later →
    (w.took before).Hears sample → ¬(w.took before).PauseFound

end Windowing

/-- One confirmed pause brings at most one cut: the pause is too short for two,
or the limit is. -/
def WindowPolicy.SingleCut (policy : WindowPolicy) : Prop :=
  policy.minPauseSamples < policy.targetSamples + 2 * policy.paddingSamples ∨
    policy.maxSamples < 2 * policy.targetSamples + policy.paddingSamples

/-- Pause cuts along a run: at each input the windows it emits. -/
structure PauseCuts (w : Windowing) (inputs : List WindowInput) : Prop where
  safe : ∀ before x later, inputs = before ++ x :: later →
    ∀ window ∈ ((w.took before).input x).emitted, window.boundary = .pause →
      w.Admits (before ++ [x]) window.firstSample window.end
  complete : ∀ before x later, inputs = before ++ x :: later →
    ∀ window ∈ ((w.took before).input x).emitted, window.boundary = .forced →
      window.samples.length = w.policy.maxSamples ∧
        ∀ moment, moment <+: before ++ [x] →
          ∀ c, window.firstSample < c → c ≤ window.end → ¬w.Admits moment window.firstSample c
  unforced : w.policy.failWithoutPause = true → ∀ before x later, inputs = before ++ x :: later →
    ∀ window ∈ ((w.took before).input x).emitted, window.boundary ≠ .forced
  fails : w.policy.failWithoutPause = true → ∀ before speech sample later,
    inputs = before ++ .sample speech sample :: later → (w.took before).Hears sample →
      ((w.took before).receive speech sample).buffer.length = w.policy.maxSamples →
      (∀ c, ¬w.Admits (before ++ [.sample speech sample]) (w.took before).first c) →
      ((w.took before).append [sample] speech).error =
          some (.lengthError "no speech pause before hard window limit") ∧
        ((w.took before).append [sample] speech).emitted = [] ∧
        ∀ samples speech', ((w.took inputs).append samples speech').error ≠ none ∧
          ((w.took inputs).append samples speech').emitted = []

namespace Windowing

variable {w : Windowing} {inputs : List WindowInput} {x : WindowInput}

theorem heard_prefix {moment : List WindowInput} (h : moment <+: inputs) :
    (w.heard moment).length ≤ (w.heard inputs).length := by
  obtain ⟨more, rfl⟩ := h
  rw [heard_append, List.length_append]
  exact Nat.le_add_right _ _

theorem since_received (w : Windowing) (inputs : List WindowInput) :
    w.Since inputs (w.heard inputs).length := by
  intro before later hSplit
  exact heard_prefix ⟨_, hSplit.symm⟩

theorem since_snoc {s : Nat} (hx : x ≠ .discontinuity) :
    w.Since (inputs ++ [x]) s ↔ w.Since inputs s := by
  constructor
  · rintro h before later rfl
    exact h before (later ++ [x]) (by simp)
  · intro h before later hSplit
    rcases History.snoc_eq_append_cons.mp hSplit with ⟨-, hSame, -⟩ | ⟨rest, -, hInputs⟩
    · exact absurd hSame hx
    · exact h before rest hInputs

theorem heard_discontinuity (w : Windowing) (inputs : List WindowInput) :
    w.heard (inputs ++ [.discontinuity]) = w.heard inputs := by
  rw [heard_snoc]
  exact List.append_nil _

theorem quiet_refused {s : Nat} (hx : x ≠ .discontinuity) (hSilent : (w.took inputs).classes x = []) :
    w.Quiet (inputs ++ [x]) s ↔ w.Quiet inputs s := by
  rw [Quiet, Quiet, since_snoc hx, heard_snoc, hSilent, List.append_nil]

theorem quiet_speech {sample : Sample} {s : Nat} (hHeard : (w.took inputs).Hears sample)
    (hs : s ≤ (w.heard inputs).length) : ¬w.Quiet (inputs ++ [.sample true sample]) s := by
  rintro ⟨-, hFalse⟩
  have hLast := hFalse (w.heard inputs).length hs (by
    rw [heard_snoc, classes_heard hHeard]
    simp)
  rw [heard_snoc, classes_heard hHeard, List.getElem?_concat_length] at hLast
  cases hLast

theorem quiet_silence {sample : Sample} {s : Nat} (hHeard : (w.took inputs).Hears sample)
    (hs : s ≤ (w.heard inputs).length) :
    w.Quiet (inputs ++ [.sample false sample]) s ↔
      s = (w.heard inputs).length ∨ w.Quiet inputs s := by
  have hx : WindowInput.sample false sample ≠ .discontinuity := fun hEq => by cases hEq
  rw [Quiet, since_snoc hx, heard_snoc, classes_heard hHeard]
  constructor
  · rintro ⟨hSince, hFalse⟩
    by_cases hEq : s = (w.heard inputs).length
    · exact Or.inl hEq
    · refine Or.inr ⟨hSince, ?_⟩
      intro i hi hLt
      have hAt := hFalse i hi (by simp; omega)
      rwa [List.getElem?_append_left hLt] at hAt
  · rintro (rfl | ⟨hSince, hFalse⟩)
    · refine ⟨w.since_received inputs, ?_⟩
      intro i hi hLt
      simp only [List.length_append, List.length_singleton] at hLt
      have hEq : i = (w.heard inputs).length := by omega
      rw [hEq, List.getElem?_concat_length]
    · refine ⟨hSince, ?_⟩
      intro i hi hLt
      simp only [List.length_append, List.length_singleton] at hLt
      by_cases hEq : i = (w.heard inputs).length
      · rw [hEq, List.getElem?_concat_length]
      · rw [List.getElem?_append_left (by omega)]
        exact hFalse i hi (by omega)

@[simp] theorem receive_speech (v : Windowing) (sample : Sample) :
    (v.receive true sample).inSilence = false := rfl

@[simp] theorem receive_silence (v : Windowing) (sample : Sample) :
    (v.receive false sample).inSilence = true ∧
      (v.receive false sample).silenceStart =
        if v.inSilence then v.silenceStart else v.received := by
  unfold receive
  cases hSilence : v.inSilence with
  | true => exact ⟨hSilence, rfl⟩
  | false => exact ⟨rfl, rfl⟩

end Windowing

/-- The silence bookkeeping knows exactly the quiet positions. -/
structure SilenceTracked (w₀ : Windowing) (inputs : List WindowInput) (v : Windowing) : Prop where
  received : v.received = (w₀.heard inputs).length
  started : v.inSilence = true → v.silenceStart < v.received
  quiet : ∀ s, s < v.received →
    (w₀.Quiet inputs s ↔ v.inSilence = true ∧ v.silenceStart ≤ s)

namespace SilenceTracked

variable {w₀ v : Windowing} {inputs : List WindowInput}

/-- Emission does not touch what the bookkeeping reads. -/
theorem of_same {u : Windowing} (h : SilenceTracked w₀ inputs v) (hReceived : u.received = v.received)
    (hSilence : u.inSilence = v.inSilence) (hStart : u.silenceStart = v.silenceStart) :
    SilenceTracked w₀ inputs u := by
  refine ⟨hReceived.trans h.received, ?_, ?_⟩
  · rw [hSilence, hStart, hReceived]
    exact h.started
  · rw [hSilence, hStart, hReceived]
    exact h.quiet

theorem receive (h : SilenceTracked w₀ inputs (w₀.took inputs)) {sample : Sample}
    (hHeard : (w₀.took inputs).Hears sample) (speech : Bool) :
    SilenceTracked w₀ (inputs ++ [.sample speech sample]) ((w₀.took inputs).receive speech sample) := by
  have hReceived : ((w₀.took inputs).receive speech sample).received =
      (w₀.heard (inputs ++ [.sample speech sample])).length := by
    rw [Windowing.receive_received, h.received, Windowing.heard_snoc,
      Windowing.classes_heard hHeard, List.length_append, List.length_singleton]
  refine ⟨hReceived, ?_, ?_⟩
  · intro hSilence
    cases speech with
    | true => cases hSilence
    | false =>
      rw [(Windowing.receive_silence _ _).2, Windowing.receive_received]
      split
      · rename_i hBefore
        exact Nat.lt_succ_of_lt (h.started hBefore)
      · exact Nat.lt_succ_self _
  · intro s hs
    rw [Windowing.receive_received, h.received] at hs
    have hLe : s ≤ (w₀.heard inputs).length := by omega
    cases speech with
    | true =>
      rw [Windowing.receive_speech]
      exact iff_of_false (Windowing.quiet_speech hHeard hLe) (fun hEq => by cases hEq.1)
    | false =>
      obtain ⟨hSilence, hStart⟩ := Windowing.receive_silence (w₀.took inputs) sample
      rw [Windowing.quiet_silence hHeard hLe, hSilence, hStart, eq_self_iff_true, true_and,
        ← h.received]
      by_cases hEq : s = (w₀.took inputs).received
      · subst hEq
        refine iff_of_true (Or.inl rfl) ?_
        split
        · rename_i hBefore
          exact Nat.le_of_lt (h.started hBefore)
        · exact Nat.le_refl _
      · rw [or_iff_right hEq, h.quiet s (by rw [h.received] at hEq ⊢; omega)]
        cases hBefore : (w₀.took inputs).inSilence with
        | true => simp
        | false =>
          refine iff_of_false (fun hNever => by cases hNever.1) ?_
          simp only [Bool.false_eq_true, if_false]
          rw [h.received] at hEq ⊢
          omega

theorem interrupted (h : SilenceTracked w₀ inputs (w₀.took inputs)) {u : Windowing}
    (hReceived : u.received = (w₀.took inputs).received) (hSilence : u.inSilence = false) :
    SilenceTracked w₀ (inputs ++ [.discontinuity]) u := by
  have hHeard := Windowing.heard_discontinuity w₀ inputs
  refine ⟨?_, ?_, ?_⟩
  · rw [hReceived, hHeard]
    exact h.received
  · intro hSilent
    rw [hSilence] at hSilent
    cases hSilent
  · intro s hs
    rw [hReceived, h.received] at hs
    refine iff_of_false ?_ ?_
    · rintro ⟨hSince, -⟩
      have hLe := hSince inputs [] rfl
      omega
    · rw [hSilence]
      rintro ⟨hNever, -⟩
      cases hNever

theorem refused (h : SilenceTracked w₀ inputs v) {x : WindowInput} (hx : x ≠ .discontinuity)
    (hSilent : (w₀.took inputs).classes x = []) : SilenceTracked w₀ (inputs ++ [x]) v := by
  refine ⟨?_, h.started, ?_⟩
  · rw [Windowing.heard_snoc, hSilent, List.append_nil]
    exact h.received
  · intro s hs
    rw [Windowing.quiet_refused hx hSilent]
    exact h.quiet s hs

theorem input {windows : List SpeechWindow} (h : SilenceTracked w₀ inputs (w₀.took inputs))
    (hSound : Sound (w₀.took inputs) windows) (x : WindowInput)
    (hOpen : ((w₀.took inputs).input x).state.finished = false) :
    SilenceTracked w₀ (inputs ++ [x]) ((w₀.took inputs).input x).state := by
  have hFinished := Windowing.open_of_next hOpen
  obtain ⟨audio, hSteady⟩ := hSound.steady hFinished
  have hTaken := hSteady.taken hFinished x
  generalize (w₀.took inputs).input x = o at hTaken hOpen
  cases hTaken with
  | refused hRefused =>
    have hSilent := Windowing.classes_refused hRefused
    rcases hRefused with hClosed | ⟨speech, sample, rfl, hFinite⟩
    · rw [hFinished] at hClosed
      cases hClosed
    · exact h.refused (fun hEq => by cases hEq) hSilent
  | held hHeard hNone hShort => exact h.receive hHeard _
  | @cut speech sample boundary count overlap hHeard hCut =>
    exact (h.receive hHeard speech).of_same rfl rfl rfl
  | failed hHeard hAware hFail hNone hFull => cases hOpen
  | interrupted _ => exact h.interrupted rfl rfl
  | closed _ hClosed hBuffer hPolicy hReceived hCommitted =>
    rw [hClosed] at hOpen
    cases hOpen

theorem run {policy : WindowPolicy} (h : Windowing.create policy = .ok w₀)
    (inputs : List WindowInput) (hOpen : (w₀.took inputs).finished = false) :
    SilenceTracked w₀ inputs (w₀.took inputs) := by
  induction inputs using List.reverseRecOn with
  | nil =>
    obtain ⟨-, -, rfl⟩ := Windowing.create_eq_ok h
    refine ⟨rfl, ?_, ?_⟩
    · intro hSilence
      cases hSilence
    · intro s hs
      exact absurd hs (Nat.not_lt_zero s)
  | append_singleton inputs x ih =>
    rw [Windowing.took_snoc] at hOpen ⊢
    exact (ih (Windowing.open_of_next hOpen)).input (Sound.run h inputs).1 x hOpen

theorem admitted (h : SilenceTracked w₀ inputs v) (hPolicy : v.policy = w₀.policy)
    (hFound : v.PauseFound) : w₀.Admits inputs v.first v.pauseCut := by
  obtain ⟨hSilence, hLong, hMargin⟩ := hFound
  have hTarget : v.first + v.policy.targetSamples ≤ v.pauseCut := Nat.le_max_left _ _
  have hPadding : v.silenceStart + v.policy.paddingSamples ≤ v.pauseCut := Nat.le_max_right _ _
  have hQuiet := (h.quiet _ (h.started hSilence)).mpr ⟨hSilence, Nat.le_refl _⟩
  rw [hPolicy] at hLong hMargin hTarget hPadding
  rw [h.received] at hLong hMargin
  exact ⟨v.silenceStart, hQuiet, hLong, hPadding, hMargin, hTarget⟩

/-- The code finds every cut the received samples admit. -/
theorem found (h : SilenceTracked w₀ inputs v) (hPolicy : v.policy = w₀.policy)
    (hPause : 0 < w₀.policy.minPauseSamples) {c : Nat} (hAdmits : w₀.Admits inputs v.first c) :
    v.PauseFound := by
  obtain ⟨s, hQuiet, hLong, hAfter, hBefore, hTarget⟩ := hAdmits
  rw [← h.received] at hLong hBefore
  obtain ⟨hSilence, hStart⟩ := (h.quiet s (by omega)).mp hQuiet
  have hCut : v.pauseCut ≤ c := by
    apply Nat.max_le.mpr
    rw [hPolicy]
    constructor <;> omega
  rw [Windowing.PauseFound, hPolicy]
  exact ⟨hSilence, by omega, by omega⟩

end SilenceTracked

theorem Windowing.Admits.mono {w : Windowing} {inputs : List WindowInput} {first first' c : Nat}
    (h : w.Admits inputs first' c) (hFirst : first ≤ first') : w.Admits inputs first c := by
  obtain ⟨s, hQuiet, hLong, hAfter, hBefore, hTarget⟩ := h
  exact ⟨s, hQuiet, hLong, hAfter, hBefore, by omega⟩

/-- Every cut ever admitted for the buffered window can still be found. -/
def Unmissed (w₀ : Windowing) (inputs : List WindowInput) (v : Windowing) : Prop :=
  ∀ moment, moment <+: inputs → ∀ c, w₀.Admits moment v.first c → v.PauseFound

namespace Unmissed

variable {w₀ : Windowing} {inputs : List WindowInput}

/-- A pause found stays found while the silence lasts. -/
theorem found_receive {v : Windowing} (h : v.PauseFound) (sample : Sample) :
    (v.receive false sample).PauseFound := by
  obtain ⟨hSilence, hLong, hMargin⟩ := h
  obtain ⟨hStill, hStart⟩ := Windowing.receive_silence v sample
  rw [hSilence, if_pos rfl] at hStart
  refine ⟨hStill, ?_, ?_⟩
  · rw [receive_policy, hStart, Windowing.receive_received]
    omega
  · rw [Windowing.pauseCut, receive_policy, hStart, Windowing.receive_first,
      Windowing.receive_received]
    exact Nat.le_succ_of_le hMargin

theorem receive (h : Unmissed w₀ inputs (w₀.took inputs))
    (hTracked : SilenceTracked w₀ inputs (w₀.took inputs))
    (hPolicy : (w₀.took inputs).policy = w₀.policy) (hPause : 0 < w₀.policy.minPauseSamples)
    {speech : Bool} {sample : Sample} (hHeard : (w₀.took inputs).Hears sample)
    (hResumes : speech = true → ¬(w₀.took inputs).PauseFound) :
    Unmissed w₀ (inputs ++ [.sample speech sample]) ((w₀.took inputs).receive speech sample) := by
  intro moment hMoment c hAdmits
  rcases List.prefix_concat_iff.mp hMoment with rfl | hEarlier
  · exact (hTracked.receive hHeard speech).found ((receive_policy ..).trans hPolicy) hPause hAdmits
  · rw [Windowing.receive_first] at hAdmits
    have hFound := h moment hEarlier c hAdmits
    cases speech with
    | true => exact absurd hFound (hResumes rfl)
    | false => exact found_receive hFound sample

theorem pauseCut_publish (v : Windowing) :
    (v.publish (v.pauseCut - v.first) .pause 0).state.first = v.pauseCut ∧
      (v.publish (v.pauseCut - v.first) .pause 0).state.pauseCut =
        v.pauseCut + v.policy.targetSamples := by
  have hTarget : v.first + v.policy.targetSamples ≤ v.pauseCut := Nat.le_max_left _ _
  have hPadding : v.silenceStart + v.policy.paddingSamples ≤ v.pauseCut := Nat.le_max_right _ _
  constructor
  · simp only [Windowing.publish]
    omega
  · change max (v.first + (v.pauseCut - v.first - 0) + v.policy.targetSamples)
      (v.silenceStart + v.policy.paddingSamples) = v.pauseCut + v.policy.targetSamples
    omega

/-- After a cut, what is still admitted is admitted by the pause under way. -/
theorem publish {v : Windowing} (h : Unmissed w₀ inputs v) (hPolicy : v.policy = w₀.policy)
    (hReceived : v.received = (w₀.heard inputs).length) (hAware : v.policy.speechAware = true)
    {boundary : WindowBoundary} {count overlap : Nat} (hCut : v.Cut boundary count overlap) :
    Unmissed w₀ inputs (v.publish count boundary overlap).state := by
  intro moment hMoment c hAdmits
  have hLength := Windowing.heard_prefix (w := w₀) hMoment
  have hOld := h moment hMoment c (hAdmits.mono (Nat.le_add_right _ _))
  cases hCut with
  | fixed hFixed hFull =>
    rw [hFixed] at hAware
    cases hAware
  | forced _ hNone hSplit hFull => exact absurd hOld hNone
  | pause _ hFound =>
    obtain ⟨hSilence, hLong, -⟩ := hFound
    obtain ⟨s, -, -, -, hBefore, hTarget⟩ := hAdmits
    obtain ⟨hFirst, hCut⟩ := pauseCut_publish v
    refine ⟨hSilence, hLong, ?_⟩
    rw [hFirst] at hTarget
    rw [hCut, hPolicy]
    change v.pauseCut + w₀.policy.targetSamples + v.policy.paddingSamples ≤ v.received
    rw [hPolicy]
    omega

theorem interrupted (hTarget : 0 < w₀.policy.targetSamples) {v : Windowing}
    (hFirst : v.first = (w₀.heard inputs).length) : Unmissed w₀ inputs v := by
  intro moment hMoment c hAdmits
  have hLength := Windowing.heard_prefix (w := w₀) hMoment
  obtain ⟨s, -, -, -, hBefore, hStart⟩ := hAdmits
  omega

theorem refused {v : Windowing} {x : WindowInput} (h : Unmissed w₀ inputs v)
    (hx : x ≠ .discontinuity) (hSilent : (w₀.took inputs).classes x = []) :
    Unmissed w₀ (inputs ++ [x]) v := by
  intro moment hMoment c hAdmits
  rcases List.prefix_concat_iff.mp hMoment with rfl | hEarlier
  · apply h inputs (List.prefix_refl _) c
    obtain ⟨s, hQuiet, hRest⟩ := hAdmits
    rw [Windowing.quiet_refused hx hSilent] at hQuiet
    rw [Windowing.heard_snoc, hSilent, List.append_nil] at hRest
    exact ⟨s, hQuiet, hRest⟩
  · exact h moment hEarlier c hAdmits

end Unmissed

/-- What a constructor that accepts a speech-aware policy has checked. -/
structure Aware (w : Windowing) : Prop where
  created : Windowing.create w.policy = .ok w
  aware : w.policy.speechAware = true

namespace Aware

variable {w : Windowing} {inputs : List WindowInput} {x : WindowInput}

theorem of_create {policy : WindowPolicy} (h : Windowing.create policy = .ok w)
    (hAware : policy.speechAware = true) : Aware w := by
  obtain ⟨-, -, rfl⟩ := Windowing.create_eq_ok h
  exact ⟨h, hAware⟩

theorem pause_pos (h : Aware w) : 0 < w.policy.minPauseSamples ∧
    w.policy.minPauseSamples ≤ w.policy.maxSamples := by
  obtain ⟨-, hPauses, -⟩ := Windowing.create_eq_ok h.created
  have hValid := hPauses h.aware
  simp only [WindowPolicy.pausesValid, Bool.and_eq_true, bne_iff_ne, decide_eq_true_eq] at hValid
  exact ⟨Nat.pos_of_ne_zero hValid.1.1.1, hValid.1.1.2⟩

theorem bounded (h : Aware w) : 0 < w.policy.targetSamples ∧
    w.policy.targetSamples ≤ w.policy.maxSamples ∧ w.policy.maxSamples ≤ 16000 * 30 ∧
      w.policy.overlapSamples < w.policy.targetSamples :=
  (WindowPolicy.bounded_iff _).mp (Windowing.create_eq_ok h.created).1

theorem sound (h : Aware w) (inputs : List WindowInput) :
    Sound (w.took inputs) (w.windows inputs) := (Sound.run h.created inputs).1

theorem policy (h : Aware w) (inputs : List WindowInput) : (w.took inputs).policy = w.policy :=
  (Sound.run h.created inputs).2

theorem silenceTracked (h : Aware w) (hOpen : (w.took inputs).finished = false) :
    SilenceTracked w inputs (w.took inputs) := SilenceTracked.run h.created inputs hOpen

theorem limit (h : Aware w) : w.policy.limit = w.policy.maxSamples := by
  rw [WindowPolicy.limit, if_pos h.aware]

theorem resumes_before (hResumes : w.Resumes (inputs ++ [x])) : w.Resumes inputs := by
  rintro before sample later rfl
  exact hResumes before sample (later ++ [x]) (by simp)

/-- What one input does to what was admitted, in an open stream that stays open. -/
theorem unmissed_input (h : Aware w) (hUnmissed : Unmissed w inputs (w.took inputs)) (hResumes : w.Resumes (inputs ++ [x]))
    (hOpen : ((w.took inputs).input x).state.finished = false) :
    Unmissed w (inputs ++ [x]) ((w.took inputs).input x).state := by
  have hFinished := Windowing.open_of_next hOpen
  have hTracked := h.silenceTracked hFinished
  have hPolicy := h.policy inputs
  obtain ⟨audio, hSteady⟩ := (h.sound inputs).steady hFinished
  have hTaken := hSteady.taken hFinished x
  have hReceive : ∀ speech sample, x = .sample speech sample → (w.took inputs).Hears sample →
      Unmissed w (inputs ++ [x]) ((w.took inputs).receive speech sample) := by
    rintro speech sample rfl hHeard
    apply hUnmissed.receive hTracked hPolicy h.pause_pos.1 hHeard
    rintro rfl
    exact hResumes inputs sample [] rfl hHeard
  generalize (w.took inputs).input x = o at hTaken hOpen
  cases hTaken with
  | refused hRefused =>
    have hSilent := Windowing.classes_refused hRefused
    rcases hRefused with hClosed | ⟨speech, sample, rfl, hFinite⟩
    · rw [hFinished] at hClosed
      cases hClosed
    · exact hUnmissed.refused (fun hEq => by cases hEq) hSilent
  | held hHeard hNone hShort => exact hReceive _ _ rfl hHeard
  | @cut speech sample boundary count overlap hHeard hCut =>
    have hSame := (receive_policy (w.took inputs) speech sample).trans hPolicy
    exact (hReceive _ _ rfl hHeard).publish hSame (hTracked.receive hHeard speech).received
      (hSame ▸ h.aware) hCut
  | failed hHeard hAware hFail hNone hFull => cases hOpen
  | interrupted _ =>
    apply Unmissed.interrupted h.bounded.1
    rw [Windowing.heard_discontinuity]
    exact hTracked.received
  | closed _ hClosed hBuffer hPolicy hReceived hCommitted =>
    rw [hClosed] at hOpen
    cases hOpen

theorem unmissed (h : Aware w) (inputs : List WindowInput) (hResumes : w.Resumes inputs)
    (hOpen : (w.took inputs).finished = false) : Unmissed w inputs (w.took inputs) := by
  induction inputs using List.reverseRecOn with
  | nil =>
    apply Unmissed.interrupted h.bounded.1
    obtain ⟨-, -, hInitial⟩ := Windowing.create_eq_ok h.created
    rw [Windowing.took_nil, hInitial]
    rfl
  | append_singleton inputs x ih =>
    rw [Windowing.took_snoc] at hOpen ⊢
    exact h.unmissed_input (ih (resumes_before hResumes) (Windowing.open_of_next hOpen)) hResumes hOpen

/-- The state behind an emitted pause or forced window. -/
theorem cut_window (h : Aware w) {window : SpeechWindow}
    (hMem : window ∈ ((w.took inputs).input x).emitted)
    (hBoundary : window.boundary = .pause ∨ window.boundary = .forced) :
    ∃ speech sample count overlap, x = .sample speech sample ∧ (w.took inputs).Hears sample ∧
      ((w.took inputs).receive speech sample).Cut window.boundary count overlap ∧
      window.firstSample = (w.took inputs).first ∧ window.samples.length = count := by
  have hFinished := Windowing.open_of_emitted hMem
  obtain ⟨audio, hSteady⟩ := (h.sound inputs).steady hFinished
  have hTaken := hSteady.taken hFinished x
  generalize (w.took inputs).input x = o at hTaken hMem
  cases hTaken with
  | refused hRefused => cases hMem
  | held hHeard hNone hShort => cases hMem
  | failed hHeard hAware hFail hNone hFull => cases hMem
  | @cut speech sample boundary count overlap hHeard hCut =>
    obtain ⟨-, hCount, -⟩ := Steady.cut_count (hSteady.buffered.receive speech sample) hCut
    cases List.mem_singleton.mp hMem
    refine ⟨speech, sample, count, overlap, rfl, hHeard, hCut,
      Windowing.receive_first _ speech sample, ?_⟩
    simp only [List.length_take]
    omega
  | interrupted hOpen =>
    cases rest_window hMem
    rcases hBoundary with hBoundary | hBoundary <;> cases hBoundary
  | closed hOpen hClosed hBuffer hPolicy hReceived hCommitted =>
    cases rest_window hMem
    rcases hBoundary with hBoundary | hBoundary <;> cases hBoundary

theorem pause_admitted (h : Aware w) {window : SpeechWindow}
    (hMem : window ∈ ((w.took inputs).input x).emitted) (hBoundary : window.boundary = .pause) :
    w.Admits (inputs ++ [x]) window.firstSample window.end := by
  obtain ⟨speech, sample, count, overlap, rfl, hHeard, hCut, hFirst, hLength⟩ :=
    h.cut_window hMem (Or.inl hBoundary)
  have hTracked := (h.silenceTracked hHeard.1).receive hHeard speech
  have hPolicy := (receive_policy (w.took inputs) speech sample).trans (h.policy inputs)
  rw [hBoundary] at hCut
  cases hCut with
  | pause hAware hFound =>
    have hAdmits := hTracked.admitted hPolicy hFound
    have hTarget : (w.took inputs).first ≤ ((w.took inputs).receive speech sample).pauseCut := by
      rw [← Windowing.receive_first (w.took inputs) speech sample]
      exact (Nat.le_add_right _ _).trans (Nat.le_max_left _ _)
    have hEnd : window.end = ((w.took inputs).receive speech sample).pauseCut := by
      rw [SpeechWindow.end, hFirst, hLength, Windowing.receive_first]
      omega
    rw [hEnd, hFirst]
    rwa [Windowing.receive_first] at hAdmits

theorem forced_missed (h : Aware w) {window : SpeechWindow}
    (hMem : window ∈ ((w.took inputs).input x).emitted) (hBoundary : window.boundary = .forced) :
    w.policy.failWithoutPause = false ∧ window.samples.length = w.policy.maxSamples ∧
      (w.Resumes (inputs ++ [x]) → ∀ moment, moment <+: inputs ++ [x] →
        ∀ c, ¬w.Admits moment window.firstSample c) := by
  obtain ⟨speech, sample, count, overlap, rfl, hHeard, hCut, hFirst, hLength⟩ :=
    h.cut_window hMem (Or.inr hBoundary)
  have hPolicy := (receive_policy (w.took inputs) speech sample).trans (h.policy inputs)
  rw [hBoundary] at hCut
  cases hCut with
  | forced hAware hNone hSplit hFull =>
    rw [hPolicy] at hSplit hFull
    refine ⟨hSplit, hLength.trans hFull, ?_⟩
    intro hResumes moment hMoment c hAdmits
    have hSpeech : speech = true → ¬(w.took inputs).PauseFound := by
      rintro rfl
      exact hResumes inputs sample [] rfl hHeard
    have hUnmissed := (h.unmissed inputs (resumes_before hResumes) hHeard.1).receive
      (h.silenceTracked hHeard.1) (h.policy inputs) h.pause_pos.1 hHeard hSpeech
    rw [hFirst, ← Windowing.receive_first (w.took inputs) speech sample] at hAdmits
    exact hNone (hUnmissed moment hMoment c hAdmits)

/-- A stream that has failed refuses everything that follows. -/
theorem took_closed {v : Windowing} (h : v.finished = true) (inputs : List WindowInput) :
    (v.took inputs).finished = true := by
  induction inputs using List.reverseRecOn with
  | nil => exact h
  | append_singleton inputs x ih =>
    obtain ⟨e, hRefused⟩ := Windowing.input_closed ih x
    rw [Windowing.took_snoc, hRefused]
    exact ih

theorem full_fails (h : Aware w) (hFail : w.policy.failWithoutPause = true) {speech : Bool}
    {sample : Sample} (hHeard : (w.took inputs).Hears sample)
    (hFull : ((w.took inputs).receive speech sample).buffer.length = w.policy.maxSamples)
    (hNone : ∀ c, ¬w.Admits (inputs ++ [.sample speech sample]) (w.took inputs).first c) :
    (w.took inputs).input (.sample speech sample) =
      ⟨{ (w.took inputs).receive speech sample with finished := true }, [],
        some (.lengthError "no speech pause before hard window limit")⟩ := by
  have hPolicy := h.policy inputs
  have hSame := (receive_policy (w.took inputs) speech sample).trans hPolicy
  have hTracked := (h.silenceTracked hHeard.1).receive hHeard speech
  have hMissing : ¬((w.took inputs).receive speech sample).PauseFound := by
    intro hFound
    have hAdmits := hTracked.admitted hSame hFound
    rw [Windowing.receive_first] at hAdmits
    exact hNone _ hAdmits
  exact Steady.input_failed hHeard (hPolicy ▸ h.aware) hMissing (hPolicy ▸ hFull) (hPolicy ▸ hFail)

theorem pauseCuts_of_resumes (h : Aware w)
    (hResumes : w.policy.failWithoutPause = true ∨ w.Resumes inputs) : PauseCuts w inputs := by
  refine ⟨?_, ?_, ?_, ?_⟩
  · rintro before x later rfl window hMem hBoundary
    exact h.pause_admitted hMem hBoundary
  · rintro before x later rfl window hMem hBoundary
    obtain ⟨hSplit, hLength, hNone⟩ := h.forced_missed hMem hBoundary
    refine ⟨hLength, ?_⟩
    intro moment hMoment c _ _
    rcases hResumes with hFail | hResumes
    · rw [hSplit] at hFail
      cases hFail
    · refine hNone ?_ moment hMoment c
      intro before' sample later' hSplit'
      exact hResumes before' sample (later' ++ later) (by
        rw [List.append_cons, hSplit', List.append_assoc, List.cons_append])
  · rintro hFail before x later rfl window hMem hBoundary
    obtain ⟨hSplit, -, -⟩ := h.forced_missed hMem hBoundary
    rw [hSplit] at hFail
    cases hFail
  · rintro hFail before speech sample later rfl hHeard hFull hNone
    have hFails := h.full_fails hFail hHeard hFull hNone
    have hAppend : (w.took before).append [sample] speech =
        (w.took before).input (.sample speech sample) := rfl
    rw [hAppend, hFails]
    refine ⟨rfl, rfl, ?_⟩
    intro samples speech'
    have hClosed : (w.took (before ++ .sample speech sample :: later)).finished = true := by
      rw [Windowing.took, after_append, ← Windowing.took, ← Windowing.took, Windowing.took_cons,
        hFails]
      exact took_closed rfl later
    rw [Windowing.append_closed hClosed]
    exact ⟨Option.some_ne_none _, rfl⟩

/-- A pause is found late in the silence only when its margin has just been observed;
otherwise it has just become long enough. -/
theorem just_found {v : Windowing} {sample : Sample} {speech : Bool}
    (hPause : 0 < v.policy.minPauseSamples)
    (hStarted : v.inSilence = true → v.silenceStart < v.received) (hBefore : ¬v.PauseFound)
    (hFound : (v.receive speech sample).PauseFound) :
    (v.receive speech sample).received =
        (v.receive speech sample).silenceStart + v.policy.minPauseSamples ∨
      (v.receive speech sample).pauseCut + v.policy.paddingSamples =
        (v.receive speech sample).received := by
  obtain ⟨hSilence, hLong, hMargin⟩ := hFound
  cases speech with
  | true => cases hSilence
  | false =>
    obtain ⟨-, hStart⟩ := Windowing.receive_silence v sample
    rw [receive_policy] at hLong hMargin
    cases hWas : v.inSilence with
    | false =>
      rw [hWas, if_neg Bool.false_ne_true] at hStart
      rw [hStart, Windowing.receive_received] at hLong ⊢
      omega
    | true =>
      have hEarlier := hStarted hWas
      rw [hWas, if_pos rfl] at hStart
      have hCut : (v.receive false sample).pauseCut = v.pauseCut := by
        rw [Windowing.pauseCut, receive_policy, hStart, Windowing.receive_first]
        rfl
      rw [hStart, Windowing.receive_received] at hLong
      rw [hCut, Windowing.receive_received] at hMargin
      rw [hStart, hCut, Windowing.receive_received]
      by_cases hMin : v.policy.minPauseSamples ≤ v.received - v.silenceStart
      · have hLate : ¬v.pauseCut + v.policy.paddingSamples ≤ v.received :=
          fun hEnough => hBefore ⟨hWas, hMin, hEnough⟩
        omega
      · omega

theorem never_found (h : Aware w) (hSingle : w.policy.SingleCut) (inputs : List WindowInput)
    (hOpen : (w.took inputs).finished = false) : ¬(w.took inputs).PauseFound := by
  induction inputs using List.reverseRecOn with
  | nil =>
    obtain ⟨-, -, hInitial⟩ := Windowing.create_eq_ok h.created
    rw [Windowing.took_nil, hInitial]
    rintro ⟨hSilence, -⟩
    cases hSilence
  | append_singleton inputs x ih =>
    rw [Windowing.took_snoc] at hOpen ⊢
    have hFinished := Windowing.open_of_next hOpen
    have hBefore := ih hFinished
    have hPolicy := h.policy inputs
    have hTracked := h.silenceTracked hFinished
    obtain ⟨audio, hSteady⟩ := (h.sound inputs).steady hFinished
    have hTaken := hSteady.taken hFinished x
    generalize (w.took inputs).input x = o at hTaken hOpen
    cases hTaken with
    | refused hRefused => exact hBefore
    | held hHeard hNone hShort => exact hNone (hPolicy ▸ h.aware)
    | @cut speech sample boundary count overlap hHeard hCut =>
      have hSame := (receive_policy (w.took inputs) speech sample).trans hPolicy
      cases hCut with
      | fixed hFixed hFull =>
        rw [hSame, h.aware] at hFixed
        cases hFixed
      | forced hAware hNone hSplit hFull =>
        rintro ⟨hSilence, hLong, hMargin⟩
        refine hNone ⟨hSilence, hLong, Nat.le_trans (Nat.add_le_add_right ?_ _) hMargin⟩
        apply max_le_max_right
        exact Nat.add_le_add_right (Nat.le_add_right _ _) _
      | pause hAware hFound =>
        rintro ⟨-, -, hMargin⟩
        have hTarget := h.bounded.1
        have hPushed := hSteady.pushed speech sample
        have hLength := (hSteady.buffered.receive speech sample).buffer_length
        have hFirst : ((w.took inputs).receive speech sample).first + w.policy.targetSamples ≤
            ((w.took inputs).receive speech sample).pauseCut := hSame ▸ Nat.le_max_left _ _
        have hPadding : ((w.took inputs).receive speech sample).silenceStart +
            w.policy.paddingSamples ≤ ((w.took inputs).receive speech sample).pauseCut :=
          hSame ▸ Nat.le_max_right _ _
        have hJust := just_found (hPolicy ▸ h.pause_pos.1) hTracked.started hBefore hFound
        rw [(Unmissed.pauseCut_publish _).2] at hMargin
        simp only [Windowing.publish] at hMargin
        rw [hSame] at hMargin
        rw [hPolicy] at hJust
        rw [hPolicy, h.limit] at hPushed
        rw [WindowPolicy.SingleCut] at hSingle
        omega
    | failed hHeard hAware hFail hNone hFull => cases hOpen
    | interrupted _ =>
      rintro ⟨hSilence, -⟩
      cases hSilence
    | closed _ hClosed hBuffer hPolicy hReceived hCommitted =>
      rw [hClosed] at hOpen
      cases hOpen

theorem resumes_single (h : Aware w) (hSingle : w.policy.SingleCut) (inputs : List WindowInput) :
    w.Resumes inputs := by
  intro before sample later _ hHeard
  exact h.never_found hSingle before hHeard.1

/-- Where an open stream stands. -/
structure Stands (w : Windowing) (inputs : List WindowInput) (first received : Nat) : Prop where
  isOpen : (w.took inputs).finished = false
  first : (w.took inputs).first = first
  received : (w.took inputs).received = received

variable {first received : Nat}

theorem receive_length (h : Aware w) (hStands : Stands w inputs first received) (speech : Bool)
    (sample : Sample) : ((w.took inputs).receive speech sample).buffer.length + first =
      received + 1 := by
  obtain ⟨audio, hSteady⟩ := (h.sound inputs).steady hStands.isOpen
  have hLength := hSteady.buffered.buffer_length
  have hFirst := hSteady.buffered.first_le
  have hCommitted := hSteady.buffered.committed_le
  rw [hStands.first] at hFirst hLength
  rw [hStands.received] at hCommitted hLength
  rw [Windowing.receive_buffer, List.length_append, List.length_singleton, hLength]
  omega

theorem stands_held (h : Aware w) (hStands : Stands w inputs first received) (speech : Bool)
    {sample : Sample} (hFinite : sample.isFinite = true)
    (hNone : ¬((w.took inputs).receive speech sample).PauseFound)
    (hRoom : received + 1 < first + w.policy.maxSamples) :
    w.took (inputs ++ [.sample speech sample]) = (w.took inputs).receive speech sample ∧
      Stands w (inputs ++ [.sample speech sample]) first (received + 1) := by
  have hLength := h.receive_length hStands speech sample
  have hPolicy := h.policy inputs
  have hTook : w.took (inputs ++ [.sample speech sample]) =
      (w.took inputs).receive speech sample := by
    rw [Windowing.took_snoc, Steady.input_held ⟨hStands.isOpen, hFinite⟩ (hPolicy ▸ h.aware) hNone (by
      rw [hPolicy]
      omega)]
  refine ⟨hTook, ⟨?_, ?_, ?_⟩⟩
  · rw [hTook, Windowing.receive_finished]
    exact hStands.isOpen
  · rw [hTook, Windowing.receive_first]
    exact hStands.first
  · rw [hTook, Windowing.receive_received, hStands.received]

/-- Speech below the limit is only buffered. -/
theorem speech_run (h : Aware w) (hStands : Stands w inputs first received) (k : Nat)
    (hRoom : received + k < first + w.policy.maxSamples) :
    Stands w (inputs ++ List.replicate k (.sample true 0)) first (received + k) ∧
      (0 < k ∨ (w.took inputs).inSilence = false →
        (w.took (inputs ++ List.replicate k (.sample true 0))).inSilence = false) := by
  induction k with
  | zero =>
    rw [List.replicate_zero, List.append_nil]
    refine ⟨hStands, ?_⟩
    rintro (hPositive | hSilence)
    · exact absurd hPositive (Nat.lt_irrefl 0)
    · exact hSilence
  | succ k ih =>
    obtain ⟨hBefore, -⟩ := ih (by omega)
    rw [List.replicate_succ', ← List.append_assoc]
    obtain ⟨hTook, hNext⟩ := @stands_held w _ _ _ h hBefore true 0 (by decide)
      (by rintro ⟨hSilence, -⟩; cases hSilence) (by omega)
    refine ⟨hNext, ?_⟩
    intro _
    rw [hTook, Windowing.receive_speech]

/-- Silence shorter than a pause is only buffered, and its start is remembered. -/
theorem silence_run (h : Aware w) (hStands : Stands w inputs first received)
    (hSpeech : (w.took inputs).inSilence = false) (k : Nat) (hk : k < w.policy.minPauseSamples)
    (hRoom : received + k < first + w.policy.maxSamples) :
    Stands w (inputs ++ List.replicate k (.sample false 0)) first (received + k) ∧
      ((w.took (inputs ++ List.replicate k (.sample false 0))).receive false 0).silenceStart =
        received := by
  induction k with
  | zero =>
    rw [List.replicate_zero, List.append_nil, (Windowing.receive_silence _ _).2, hSpeech,
      if_neg Bool.false_ne_true]
    exact ⟨hStands, hStands.received⟩
  | succ k ih =>
    obtain ⟨hBefore, hStart⟩ := ih (by omega) (by omega)
    have hPolicy := h.policy (inputs ++ List.replicate k (.sample false 0))
    rw [List.replicate_succ', ← List.append_assoc]
    obtain ⟨hTook, hNext⟩ := @stands_held w _ _ _ h hBefore false 0 (by decide)
      (by
        rintro ⟨-, hLong, -⟩
        rw [hStart, receive_policy, hPolicy, Windowing.receive_received, hBefore.received] at hLong
        omega) (by omega)
    refine ⟨hNext, ?_⟩
    rw [hTook, (Windowing.receive_silence _ _).2, (Windowing.receive_silence _ _).1, if_pos rfl]
    exact hStart

/-- A pause confirmed on the sample that reaches the limit, after as much speech as fits. -/
def confirmed (policy : WindowPolicy) : List WindowInput :=
  List.replicate (policy.maxSamples - policy.minPauseSamples) (.sample true 0) ++
    List.replicate policy.minPauseSamples (.sample false 0)

/-- Where the first cut falls in `confirmed`. -/
def firstCut (policy : WindowPolicy) : Nat :=
  max policy.targetSamples
    (policy.maxSamples - policy.minPauseSamples + policy.paddingSamples)

theorem confirmed_leftover (h : Aware w) (hTwice : ¬w.policy.SingleCut) :
    Stands w (confirmed w.policy) (firstCut w.policy) w.policy.maxSamples ∧
      (w.took (confirmed w.policy)).PauseFound ∧
      (w.took (confirmed w.policy)).pauseCut = firstCut w.policy + w.policy.targetSamples := by
  obtain ⟨hPause, hLong⟩ := h.pause_pos
  obtain ⟨hTarget, -, -, -⟩ := h.bounded
  obtain ⟨-, -, hInitial⟩ := Windowing.create_eq_ok h.created
  simp only [WindowPolicy.SingleCut, not_or, Nat.not_lt] at hTwice
  have hStart : Stands w [] 0 0 := by
    rw [hInitial]
    exact ⟨rfl, rfl, rfl⟩
  have hQuietStart : (w.took []).inSilence = false := by
    rw [hInitial]
    rfl
  obtain ⟨hSpoken, hSpeech⟩ := h.speech_run hStart
    (w.policy.maxSamples - w.policy.minPauseSamples) (by omega)
  rw [List.nil_append, Nat.zero_add] at hSpoken
  rw [List.nil_append] at hSpeech
  obtain ⟨hSilent, hBegan⟩ := h.silence_run hSpoken (hSpeech (Or.inr hQuietStart))
    (w.policy.minPauseSamples - 1) (by omega) (by omega)
  have hConfirmed : confirmed w.policy =
      List.replicate (w.policy.maxSamples - w.policy.minPauseSamples) (.sample true 0) ++
        List.replicate (w.policy.minPauseSamples - 1) (.sample false 0) ++ [.sample false 0] := by
    rw [confirmed, List.append_assoc, ← List.replicate_succ', Nat.sub_add_cancel hPause]
  generalize List.replicate (w.policy.maxSamples - w.policy.minPauseSamples)
    (WindowInput.sample true 0) ++ List.replicate (w.policy.minPauseSamples - 1)
      (WindowInput.sample false 0) = inputs at *
  have hPolicy := h.policy inputs
  have hSame := (receive_policy (w.took inputs) false 0).trans hPolicy
  have hReceived : ((w.took inputs).receive false 0).received = w.policy.maxSamples := by
    rw [Windowing.receive_received, hSilent.received]
    omega
  have hCut : ((w.took inputs).receive false 0).pauseCut = firstCut w.policy := by
    rw [Windowing.pauseCut, hSame, hBegan, Windowing.receive_first, hSilent.first, Nat.zero_add,
      firstCut]
  have hFound : ((w.took inputs).receive false 0).PauseFound := by
    refine ⟨(Windowing.receive_silence _ _).1, ?_, ?_⟩
    · rw [hSame, hReceived, hBegan]
      omega
    · rw [hSame, hReceived, hCut, firstCut]
      omega
  obtain ⟨audio, hSteady⟩ := (h.sound inputs).steady hSilent.isOpen
  have hTook : w.took (confirmed w.policy) = (((w.took inputs).receive false 0).publish
      (((w.took inputs).receive false 0).pauseCut - ((w.took inputs).receive false 0).first)
      .pause 0).state := by
    rw [hConfirmed, Windowing.took_snoc,
      hSteady.input_pause ⟨hSilent.isOpen, by decide⟩ (hPolicy ▸ h.aware) hFound]
  obtain ⟨hNewFirst, hNewCut⟩ := Unmissed.pauseCut_publish ((w.took inputs).receive false 0)
  rw [hCut] at hNewFirst hNewCut
  rw [hSame] at hNewCut
  refine ⟨⟨?_, ?_, ?_⟩, ⟨?_, ?_, ?_⟩, ?_⟩
  · rw [hTook]
    exact (Windowing.receive_finished (w.took inputs) false 0).trans hSilent.isOpen
  · rw [hTook, hCut, hNewFirst]
  · rw [hTook]
    exact hReceived
  · rw [hTook]
    exact hFound.1
  · rw [hTook]
    exact hFound.2.1
  · rw [h.policy, hTook, hCut, hNewCut]
    change _ ≤ ((w.took inputs).receive false 0).received
    rw [hReceived, firstCut]
    omega
  · rw [hTook, hCut, hNewCut]

/-- Speech right after such a pause leads to a forced window in which a cut was admitted. -/
theorem missed (h : Aware w) (hSplit : w.policy.failWithoutPause = false)
    (hTwice : ¬w.policy.SingleCut) :
    ¬PauseCuts w (confirmed w.policy ++ List.replicate (firstCut w.policy) (.sample true 0)) := by
  intro hCuts
  obtain ⟨hStands, hFound, hSecond⟩ := h.confirmed_leftover hTwice
  obtain ⟨hTarget, hMax, -, -⟩ := h.bounded
  have hAdmits := (h.silenceTracked hStands.isOpen).admitted (h.policy _) hFound
  have hPositive : 0 < firstCut w.policy := Nat.lt_of_lt_of_le hTarget (Nat.le_max_left _ _)
  obtain ⟨hBefore, -⟩ := h.speech_run hStands (firstCut w.policy - 1) (by omega)
  have hRun : confirmed w.policy ++ List.replicate (firstCut w.policy) (.sample true 0) =
      confirmed w.policy ++ List.replicate (firstCut w.policy - 1) (.sample true 0) ++
        [.sample true 0] := by
    rw [List.append_assoc, ← List.replicate_succ', Nat.sub_add_cancel hPositive]
  rw [hStands.first, hSecond] at hAdmits
  rw [hRun] at hCuts
  have hPrefix : confirmed w.policy <+:
      confirmed w.policy ++ List.replicate (firstCut w.policy - 1) (.sample true 0) :=
    List.prefix_append _ _
  generalize confirmed w.policy ++ List.replicate (firstCut w.policy - 1)
    (WindowInput.sample true 0) = inputs at *
  have hPolicy := h.policy inputs
  have hLength := h.receive_length hBefore true 0
  have hFull : ((w.took inputs).receive true 0).buffer.length = w.policy.maxSamples := by omega
  obtain ⟨audio, hSteady⟩ := (h.sound inputs).steady hBefore.isOpen
  have hSpeaking : ¬((w.took inputs).receive true 0).PauseFound := by
    rintro ⟨hSilence, -⟩
    cases hSilence
  have hForced := hSteady.input_forced ⟨hBefore.isOpen, by decide⟩ (hPolicy ▸ h.aware) hSpeaking
    (hPolicy ▸ hFull) (hPolicy ▸ hSplit)
  have hComplete := hCuts.complete inputs (.sample true 0) [] rfl
  rw [hForced] at hComplete
  obtain ⟨hSize, hNone⟩ := hComplete _ (List.mem_singleton_self _) rfl
  have hFirst : ((w.took inputs).receive true 0).first = firstCut w.policy := by
    rw [Windowing.receive_first, hBefore.first]
  simp only [SpeechWindow.end, hFirst] at hSize hNone
  apply hNone (confirmed w.policy) (hPrefix.trans (List.prefix_append _ _))
    (firstCut w.policy + w.policy.targetSamples) (by omega) (by omega) hAdmits

end Aware

/-- Pause cuts are safe in every run, and complete in every run without speech on a leftover
cut; for a policy all runs are such exactly when it fails without a pause or cuts once. -/
theorem pause_cuts_iff {policy : WindowPolicy} {w : Windowing}
    (h : Windowing.create policy = .ok w) (hAware : policy.speechAware = true) :
    (∀ inputs, w.Resumes inputs → PauseCuts w inputs) ∧
      ((∀ inputs, PauseCuts w inputs) ↔ policy.failWithoutPause = true ∨ policy.SingleCut) := by
  have hAccepted := Aware.of_create h hAware
  have hPolicy : w.policy = policy := (Sound.run h []).2
  refine ⟨fun inputs hResumes => hAccepted.pauseCuts_of_resumes (Or.inr hResumes), ?_, ?_⟩
  · intro hAll
    by_contra hNot
    rw [not_or, Bool.not_eq_true, ← hPolicy] at hNot
    exact hAccepted.missed hNot.1 hNot.2 (hAll _)
  · intro hCondition inputs
    rw [← hPolicy] at hCondition
    apply hAccepted.pauseCuts_of_resumes
    rcases hCondition with hFail | hSingle
    · exact Or.inl hFail
    · exact Or.inr (hAccepted.resumes_single hSingle inputs)

/-- Pauses of four samples where windows of two would do. -/
def longPauses : WindowPolicy := ⟨2, 5, 1, 4, 0, true, false⟩

theorem pause_cuts_short_pause :
    WindowPolicy.SingleCut ⟨10, 20, 3, 6, 2, true, false⟩ ∧
      PauseCuts ⟨⟨10, 20, 3, 6, 2, true, false⟩, [], 0, 0, 0, 0, 0, false, false⟩
        (List.replicate 9 (.sample true 0) ++ List.replicate 6 (.sample false 0)) := by
  have hSingle : WindowPolicy.SingleCut ⟨10, 20, 3, 6, 2, true, false⟩ := by
    unfold WindowPolicy.SingleCut
    decide
  exact ⟨hSingle, (@pause_cuts_iff ⟨10, 20, 3, 6, 2, true, false⟩ _ (by decide) rfl).2.mpr
    (Or.inr hSingle) _⟩

/-- A sample of speech, four of silence and two of speech: the window `[2, 7)` is forced
though the silence admitted a cut at 4. -/
theorem pause_cut_missed :
    ¬∀ (policy : WindowPolicy) (w : Windowing), Windowing.create policy = .ok w →
      policy.speechAware = true → ∀ inputs, PauseCuts w inputs := by
  intro hAll
  have hCuts := hAll longPauses ⟨longPauses, [], 0, 0, 0, 0, 0, false, false⟩ (by decide) rfl
    ([.sample true 0] ++ List.replicate 4 (.sample false 0) ++ List.replicate 2 (.sample true 0))
  have hAccepted : Aware ⟨longPauses, [], 0, 0, 0, 0, 0, false, false⟩ := ⟨by decide, rfl⟩
  exact hAccepted.missed rfl (by unfold WindowPolicy.SingleCut; decide) hCuts

end GrpcAsr.Media
