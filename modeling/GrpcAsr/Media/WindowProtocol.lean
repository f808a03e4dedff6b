import Mathlib.Data.List.Induction
import GrpcAsr.Media.AudioPartition

/-!
# The protocol of a window stream

`Expected` says what the next window of a stream may be, given the windows before it; a
stream is `Regular` when every window of it was expected. Whatever a track's listener
emits is regular, also when an operation fails part of the way.
-/

namespace GrpcAsr.Media

open Emitting

set_option autoImplicit false

def sampleLimit : Nat := 100000000000000

structure Expected (policy : WindowPolicy) (before : List SpeechWindow) (window : SpeechWindow) :
    Prop where
  number : window.number = before.length + 1
  start : window.firstNewSample = lastEnd before
  bounds : window.firstSample ≤ window.firstNewSample ∧ window.firstNewSample < window.end
  position : window.firstSample ≤ sampleLimit
  size : window.samples.length ≤ 16000 * 30
  overlap : window.boundary = .fixed ∨ window.boundary = .forced →
    policy.overlapSamples < window.samples.length
  restart : ∀ last, before.getLast? = some last → last.boundary = .discontinuity →
    window.firstSample = last.end
  unended : ∀ last, before.getLast? = some last → last.boundary ≠ .end

inductive Regular (policy : WindowPolicy) : List SpeechWindow → Prop
  | nil : Regular policy []
  | snoc {windows : List SpeechWindow} {window : SpeechWindow} (h : Regular policy windows)
      (hNext : Expected policy windows window) : Regular policy (windows ++ [window])

theorem Regular.before {policy : WindowPolicy} {before after : List SpeechWindow}
    (h : Regular policy (before ++ after)) : Regular policy before := by
  induction after using List.reverseRecOn with
  | nil => simpa using h
  | append_singleton after last ih =>
    rw [← List.append_assoc] at h
    generalize hWhole : before ++ after ++ [last] = whole at h
    cases h with
    | nil => simp at hWhole
    | snoc h hNext =>
      obtain ⟨rfl, -⟩ := List.append_inj' hWhole rfl
      exact ih h

theorem Regular.expected {policy : WindowPolicy} {before after : List SpeechWindow}
    {window : SpeechWindow} (h : Regular policy (before ++ window :: after)) :
    Expected policy before window := by
  rw [List.append_cons] at h
  generalize hWhole : before ++ [window] = whole at h
  cases h.before with
  | nil => simp at hWhole
  | snoc h hNext =>
    obtain ⟨rfl, hSame⟩ := List.append_inj' hWhole rfl
    cases hSame
    exact hNext

def WindowPolicy.limit (policy : WindowPolicy) : Nat :=
  if policy.speechAware then policy.maxSamples else policy.targetSamples

/-- A window stream of at most `n` samples with room for `room` more before its limit. -/
structure Ready (n room : Nat) (w : Windowing) (windows : List SpeechWindow) : Prop where
  buffered : ∃ audio, Buffered audio w windows ∧ audio.length ≤ n
  regular : Regular w.policy windows
  resumed : ∀ last, windows.getLast? = some last → last.boundary = .discontinuity →
    w.first = w.committed
  unended : ∀ last, windows.getLast? = some last → last.boundary ≠ .end
  room : w.buffer.length + room ≤ w.policy.limit

namespace Ready

variable {n room : Nat} {w : Windowing} {windows : List SpeechWindow}

theorem initial {policy : WindowPolicy} (h : Windowing.create policy = .ok w) : Ready 0 1 w [] := by
  have hBuffered := Buffered.initial h
  have hPolicy := (WindowPolicy.bounded_iff _).mp hBuffered.policy
  obtain ⟨-, -, rfl⟩ := Windowing.create_eq_ok h
  refine ⟨⟨[], hBuffered, Nat.le_refl _⟩, .nil, by simp, by simp, ?_⟩
  unfold WindowPolicy.limit
  split <;> simp at hPolicy ⊢ <;> omega

theorem limit_le (h : Ready n room w windows) : w.policy.limit ≤ 16000 * 30 := by
  obtain ⟨audio, hBuffered, -⟩ := h.buffered
  have hPolicy := (WindowPolicy.bounded_iff _).mp hBuffered.policy
  unfold WindowPolicy.limit
  split <;> omega

/-- The next window is always an expected one. -/
theorem expected (h : Ready n room w windows) (hn : n ≤ sampleLimit) {count : Nat}
    {boundary : WindowBoundary} (hCount : count ≤ w.buffer.length) (hNew : w.committed < w.first + count)
    (hOverlap : boundary = .fixed ∨ boundary = .forced → w.policy.overlapSamples < count) :
    Expected w.policy windows ⟨w.number + 1, w.first, w.committed, boundary, w.buffer.take count⟩ := by
  obtain ⟨audio, hBuffered, hLength⟩ := h.buffered
  have hTaken : (w.buffer.take count).length = count := by
    rw [List.length_take]
    omega
  have hFirst := hBuffered.first_le
  have hCommitted := hBuffered.committed_le
  have hReceived := hBuffered.received
  have hRoom := h.room
  have hLimit := h.limit_le
  refine ⟨?_, ?_, ?_, ?_, ?_, ?_, ?_, h.unended⟩
  · simp [hBuffered.number]
  · exact hBuffered.committed.symm
  · simp only [SpeechWindow.end, hTaken]
    omega
  · simp only
    omega
  · simp only [hTaken]
    omega
  · simpa only [hTaken] using hOverlap
  · intro last hLast hBoundary
    have hEnd : lastEnd windows = last.end := by
      rw [lastEnd, hLast]
      rfl
    rw [← hEnd, hBuffered.committed]
    exact h.resumed last hLast hBoundary

theorem regular_emit (h : Ready n room w windows) (hn : n ≤ sampleLimit) {count : Nat}
    {boundary : WindowBoundary} (overlap : Nat) (hCount : count ≤ w.buffer.length)
    (hOverlap : boundary = .fixed ∨ boundary = .forced → w.policy.overlapSamples < count) :
    Regular w.policy (windows ++ (w.emit count boundary overlap).emitted) := by
  unfold Windowing.emit
  split
  · simpa using h.regular
  · exact .snoc h.regular (h.expected hn hCount (by omega) hOverlap)

/-- Emission with any boundary but the end keeps the stream ready. -/
theorem emit (h : Ready n room w windows) (hn : n ≤ sampleLimit) {count : Nat}
    (boundary : WindowBoundary) (overlap : Nat) (hCount : count ≤ w.buffer.length)
    (hOverlap : overlap ≤ w.policy.overlapSamples) (hShort : overlap ≤ count)
    (hSize : boundary = .fixed ∨ boundary = .forced → w.policy.overlapSamples < count)
    (hBoundary : boundary ≠ .end) (hCut : boundary = .discontinuity → overlap = 0) :
    Ready n room (w.emit count boundary overlap).state
      (windows ++ (w.emit count boundary overlap).emitted) := by
  obtain ⟨audio, hBuffered, hLength⟩ := h.buffered
  have hRegular := h.regular_emit hn overlap hCount hSize
  have hNext := (hBuffered.emit boundary overlap hCount hOverlap hShort).1
  have hRoom := h.room
  unfold Windowing.emit at hRegular hNext ⊢
  split
  · simpa using h
  · rename_i hEmit
    rw [if_neg hEmit] at hRegular hNext
    refine ⟨⟨audio, hNext, hLength⟩, hRegular, ?_, ?_, ?_⟩
    · intro last hLast hDiscontinuity
      simp only [List.getLast?_concat, Option.some.injEq] at hLast
      subst hLast
      simp only [hCut hDiscontinuity, Nat.sub_zero]
    · intro last hLast
      simp only [List.getLast?_concat, Option.some.injEq] at hLast
      subst hLast
      exact hBoundary
    · simp only [List.length_drop]
      omega

theorem receive (h : Ready n 1 w windows) (speech : Bool) (sample : Sample) :
    Ready (n + 1) 0 (w.receive speech sample) windows := by
  obtain ⟨audio, hBuffered, hLength⟩ := h.buffered
  have hNext := hBuffered.receive speech sample
  have hRoom := h.room
  have hSame : (w.receive speech sample).policy = w.policy ∧
      (w.receive speech sample).first = w.first ∧
      (w.receive speech sample).committed = w.committed ∧
      (w.receive speech sample).buffer.length = w.buffer.length + 1 := by
    unfold Windowing.receive
    split
    · simp
    · split <;> simp
  obtain ⟨hPolicy, hFirst, hCommitted, hBuffer⟩ := hSame
  refine ⟨⟨_, hNext, by simpa using hLength⟩, ?_, ?_, h.unended, ?_⟩
  · rw [hPolicy]
    exact h.regular
  · rw [hFirst, hCommitted]
    exact h.resumed
  · rw [hPolicy, hBuffer]
    exact hRoom

theorem cutAtPause (h : Ready n 0 w windows) (hn : n ≤ sampleLimit) :
    Ready n 0 w.cutAtPause.state (windows ++ w.cutAtPause.emitted) := by
  obtain ⟨audio, hBuffered, -⟩ := h.buffered
  have hLength := hBuffered.buffer_length
  unfold Windowing.cutAtPause
  split
  · rename_i hPause
    simp only [Bool.and_eq_true, decide_eq_true_eq] at hPause
    exact h.emit hn .pause 0 (by omega) (Nat.zero_le _) (Nat.zero_le _) (by simp) (by simp) (by simp)
  · simpa using h

/-- A cut of the whole buffer leaves only the overlap, so there is room again. -/
theorem cutWhole (h : Ready n 0 w windows) (hn : n ≤ sampleLimit) {boundary : WindowBoundary}
    (hBoundary : boundary = .fixed ∨ boundary = .forced)
    (hFull : w.policy.targetSamples ≤ w.buffer.length) :
    Ready n 1 (w.emit w.buffer.length boundary w.policy.overlapSamples).state
      (windows ++ (w.emit w.buffer.length boundary w.policy.overlapSamples).emitted) := by
  obtain ⟨audio, hBuffered, -⟩ := h.buffered
  have hPolicy := (WindowPolicy.bounded_iff _).mp hBuffered.policy
  have hOverlap := hBuffered.overlap
  have hNext := h.emit hn boundary w.policy.overlapSamples (Nat.le_refl _) (Nat.le_refl _)
    (by omega) (fun _ => by omega) (by rcases hBoundary with rfl | rfl <;> simp)
    (by rcases hBoundary with rfl | rfl <;> simp)
  refine ⟨hNext.buffered, hNext.regular, hNext.resumed, hNext.unended, ?_⟩
  unfold Windowing.emit
  rw [if_neg (by omega)]
  simp only [List.length_drop, WindowPolicy.limit]
  split <;> omega

theorem cutFixed (h : Ready n 0 w windows) (hn : n ≤ sampleLimit)
    (hFixed : w.policy.speechAware = false) :
    Ready n 1 w.cutFixed.state (windows ++ w.cutFixed.emitted) := by
  unfold Windowing.cutFixed
  split
  · rename_i hFull
    exact h.cutWhole hn (Or.inl rfl) (Nat.le_of_eq hFull.symm)
  · rename_i hShort
    have hRoom := h.room
    simp only [WindowPolicy.limit, hFixed, Bool.false_eq_true, if_false] at hRoom
    simp only [List.append_nil]
    refine ⟨h.buffered, h.regular, h.resumed, h.unended, ?_⟩
    simp only [WindowPolicy.limit, hFixed, Bool.false_eq_true, if_false]
    omega

theorem cutAtLimit (h : Ready n 0 w windows) (hn : n ≤ sampleLimit)
    (hAware : w.policy.speechAware = true) :
    Ensures windows w.cutAtLimit (Ready n 1) (Regular w.policy) := by
  obtain ⟨audio, hBuffered, -⟩ := h.buffered
  have hPolicy := (WindowPolicy.bounded_iff _).mp hBuffered.policy
  unfold Windowing.cutAtLimit
  split
  · rename_i hFull
    split
    · exact Ensures.throw h.regular
    · refine ⟨fun _ => h.cutWhole hn (Or.inr rfl) (by omega), fun hFail => ?_⟩
      exact absurd (w.emit_error _ _ _) hFail
  · rename_i hShort
    refine Ensures.return_ ⟨h.buffered, h.regular, h.resumed, h.unended, ?_⟩
    simp only [WindowPolicy.limit, hAware, if_true]
    omega

end Ready

section Windows

variable {n : Nat} {w : Windowing} {windows : List SpeechWindow}

theorem emit_policy (w : Windowing) (count : Nat) (boundary : WindowBoundary) (overlap : Nat) :
    (w.emit count boundary overlap).state.policy = w.policy := by
  unfold Windowing.emit
  split <;> rfl

/-- Readiness under a fixed policy, the form in which calls are chained. -/
def ReadyFor (policy : WindowPolicy) (n : Nat) (w : Windowing) (windows : List SpeechWindow) : Prop :=
  Ready n 1 w windows ∧ w.policy = policy

theorem receive_policy (w : Windowing) (speech : Bool) (sample : Sample) :
    (w.receive speech sample).policy = w.policy := by
  unfold Windowing.receive
  split
  · rfl
  · split <;> rfl

theorem cutAtPause_policy (w : Windowing) : w.cutAtPause.state.policy = w.policy := by
  unfold Windowing.cutAtPause
  split
  · exact emit_policy _ _ _ _
  · rfl

theorem cutAtLimit_policy (w : Windowing) : w.cutAtLimit.state.policy = w.policy := by
  unfold Windowing.cutAtLimit
  split
  · split
    · rfl
    · exact emit_policy _ _ _ _
  · rfl

theorem cutFixed_policy (w : Windowing) : w.cutFixed.state.policy = w.policy := by
  unfold Windowing.cutFixed
  split
  · exact emit_policy _ _ _ _
  · rfl

variable {policy : WindowPolicy}

theorem ReadyFor.appendSample (h : ReadyFor policy n w windows) (hn : n + 1 ≤ sampleLimit)
    (speech : Bool) (sample : Sample) :
    Ensures windows (Windowing.appendSample speech w sample) (ReadyFor policy (n + 1))
      (Regular policy) := by
  obtain ⟨hReady, rfl⟩ := h
  have hReceived := hReady.receive speech sample
  have hPolicy := receive_policy w speech sample
  unfold Windowing.appendSample
  split
  · exact Ensures.throw hReady.regular
  · split
    · rename_i hFixed
      have hCut := hReceived.cutFixed hn (by simpa [hPolicy] using hFixed)
      refine ⟨fun _ => ⟨hCut, (cutFixed_policy _).trans hPolicy⟩, fun _ => ?_⟩
      rw [← hPolicy, ← cutFixed_policy]
      exact hCut.regular
    · rename_i hAware
      have hPause := hReceived.cutAtPause hn
      have hSame := (cutAtPause_policy (w.receive speech sample)).trans hPolicy
      have hLimit := hPause.cutAtLimit hn (by simpa [hSame] using hAware)
      rw [Outcome.next_of_none (Windowing.cutAtPause_error _)]
      rw [hSame] at hLimit
      refine ⟨fun hNone => ⟨?_, (cutAtLimit_policy _).trans hSame⟩, fun hFail => ?_⟩
      · simpa using hLimit.done hNone
      · simpa using hLimit.failed hFail

theorem ReadyFor.append (h : ReadyFor policy n w windows) {samples : List Sample} (speech : Bool)
    (hn : n + samples.length ≤ sampleLimit) :
    Ensures windows (w.append samples speech) (ReadyFor policy (n + samples.length))
      (Regular policy) := by
  unfold Windowing.append
  split
  · exact Ensures.throw (h.2 ▸ h.1.regular)
  · refine Ensures.runAll (P := fun done s out => ReadyFor policy (n + done.length) s out) ?_ h
    intro before sample after s out hSplit hBefore
    rw [hSplit, List.length_append, List.length_cons] at hn
    simpa [Nat.add_assoc] using hBefore.appendSample (by omega) speech sample

theorem ReadyFor.discontinuity (h : ReadyFor policy n w windows) (hn : n ≤ sampleLimit) :
    Ensures windows w.discontinuity (ReadyFor policy n) (Regular policy) := by
  obtain ⟨hReady, rfl⟩ := h
  unfold Windowing.discontinuity
  split
  · exact Ensures.throw hReady.regular
  · rename_i hOpen
    obtain ⟨audio, hBuffered, hLength⟩ := hReady.buffered
    have hEmit := hReady.emit hn .discontinuity 0 (Nat.le_refl _) (Nat.zero_le _) (Nat.zero_le _)
      (by simp) (by simp) (by simp)
    have hCut := hBuffered.discontinuity (by
      rw [Windowing.discontinuity, if_neg hOpen, Outcome.next_of_none (w.emit_error _ _ _)])
    rw [Windowing.discontinuity, if_neg hOpen, Outcome.next_of_none (w.emit_error _ _ _)] at hCut
    rw [Outcome.next_of_none (w.emit_error _ _ _)]
    simp only [List.append_nil] at hCut
    refine ⟨fun _ => ⟨?_, emit_policy _ _ _ _⟩, fun hFail => absurd rfl hFail⟩
    simp only [List.append_nil]
    have hPolicy := (WindowPolicy.bounded_iff _).mp hBuffered.policy
    have hReceived := hCut.received
    have hCommitted := (hBuffered.emit .discontinuity 0 (Nat.le_refl _) (Nat.zero_le _)
      (Nat.zero_le _)).2
    have hLengths := hBuffered.buffer_length
    have hFirst := hBuffered.first_le
    have hReach := hBuffered.committed_le
    have hAudio := hBuffered.received
    refine ⟨⟨audio, hCut, hLength⟩, hEmit.regular, fun _ _ _ => ?_, hEmit.unended, ?_⟩
    · simp only at hReceived ⊢
      omega
    · simp only [List.length_nil, emit_policy, WindowPolicy.limit]
      split <;> omega

theorem ReadyFor.finish (h : ReadyFor policy n w windows) (hn : n ≤ sampleLimit) :
    Regular policy (windows ++ w.finish.emitted) := by
  obtain ⟨hReady, rfl⟩ := h
  unfold Windowing.finish
  split
  · simpa using hReady.regular
  · rw [Outcome.next_of_none (w.emit_error _ _ _)]
    simpa using hReady.regular_emit hn 0 (Nat.le_refl _) (by simp)

end Windows

/-- At most `k` more samples leave or stay in the detector than it held. -/
def Carries {D : Detector} (v : VoiceActivity D) (k : Nat) (o : VoiceOutcome D) : Prop :=
  Ensures [] o
    (fun v' frames => (heard frames).length + v'.pending.length = v.pending.length + k)
    (fun frames => (heard frames).length ≤ v.pending.length + k)

/-- What leaves the detector is what it held and was given, in order; without an exception
it holds the rest. -/
def Passes {D : Detector} (v : VoiceActivity D) (input : List Sample) (o : VoiceOutcome D) : Prop :=
  Ensures [] o (fun v' frames => v.pending ++ input = heard frames ++ v'.pending)
    (fun frames => heard frames <+: v.pending ++ input)

theorem Passes.carries {D : Detector} {v : VoiceActivity D} {input : List Sample} {o : VoiceOutcome D}
    (h : Passes v input o) : Carries v input.length o := by
  refine ⟨fun hOk => ?_, fun hFail => ?_⟩
  · have hLength := congrArg List.length (h.done hOk)
    simp only [List.length_append] at hLength
    exact hLength.symm
  · simpa using (h.failed hFail).length_le

namespace VoiceActivity

variable {D : Detector}

theorem flush_failed {v : VoiceActivity D} (h : v.flush.error ≠ none) : v.flush.emitted = [] := by
  unfold flush at h ⊢
  split
  · rfl
  · rename_i hHeld
    rw [if_neg hHeld] at h
    split
    · split
      · rfl
      · rename_i hDetect hRange
        simp only [hDetect, if_neg hRange] at h
        exact absurd rfl h
    · rfl
    · rfl

theorem flush_passes (v : VoiceActivity D) : Passes v [] v.flush where
  done hOk := (flush_relays hOk).1
  failed hFail := by
    rw [flush_failed hFail]
    exact List.nil_prefix

theorem appendSample_failed {v : VoiceActivity D} {sample : Sample}
    (h : (v.appendSample sample).error ≠ none) : (v.appendSample sample).emitted = [] := by
  unfold appendSample at h ⊢
  split
  · rfl
  · rename_i hFinite
    rw [if_neg hFinite] at h
    dsimp only at h ⊢
    split
    · rename_i hFull
      rw [if_pos hFull] at h
      exact flush_failed h
    · rfl

theorem Passes.closing {v : VoiceActivity D} {input : List Sample} {o : VoiceOutcome D}
    (h : Passes v input o) : Passes v input (closing o) := by
  cases hError : o.error with
  | some e =>
    have hClosed : VoiceActivity.closing o = { o with state := { o.state with closed := true } } := by
      rw [VoiceActivity.closing, hError]
      rfl
    rw [hClosed]
    exact ⟨fun hNone => absurd (hError.symm.trans hNone) (Option.some_ne_none e), h.failed⟩
  | none =>
    have hSame : VoiceActivity.closing o = o := by
      rw [VoiceActivity.closing, hError]
      rfl
    rwa [hSame]

theorem append_passes (v : VoiceActivity D) (samples : List Sample) :
    Passes v samples (v.append samples) := by
  unfold append
  split
  · exact Ensures.throw List.nil_prefix
  · refine Passes.closing (Ensures.runAll (P := fun done (s : VoiceActivity D) frames =>
      v.pending ++ done = heard frames ++ s.pending) ?_ (by simp))
    intro before sample after s out hSplit hBefore
    refine ⟨fun hOk => ?_, fun hFail => ?_⟩
    · rw [heard_append, List.append_assoc, ← appendSample_relays hOk, ← List.append_assoc, hBefore,
        List.append_assoc]
    · rw [appendSample_failed hFail, List.append_nil, hSplit, ← List.append_assoc, hBefore,
        List.append_assoc]
      exact List.prefix_append _ _

theorem discontinuity_passes (v : VoiceActivity D) : Passes v [] v.discontinuity := by
  unfold discontinuity
  split
  · exact Ensures.throw List.nil_prefix
  · refine Passes.closing (Ensures.next (flush_passes v) fun v' frames hFlush => ?_)
    exact Ensures.return_ hFlush

theorem finish_passes (v : VoiceActivity D) : Passes v [] v.finish := by
  unfold finish
  split
  · exact Ensures.throw List.nil_prefix
  · exact flush_passes _

theorem append_carries (v : VoiceActivity D) (samples : List Sample) :
    Carries v samples.length (v.append samples) := (append_passes v samples).carries

theorem discontinuity_carries (v : VoiceActivity D) : Carries v 0 v.discontinuity :=
  (discontinuity_passes v).carries

theorem finish_carries (v : VoiceActivity D) : Carries v 0 v.finish := (finish_passes v).carries

end VoiceActivity

namespace Listener

variable {D : Detector} {policy : WindowPolicy} {n : Nat} {l : Listener D}
  {windows : List SpeechWindow}

/-- A listener that was given at most `n` samples, counting those its detector holds. -/
def Listens (policy : WindowPolicy) (n : Nat) (l : Listener D) (windows : List SpeechWindow) : Prop :=
  ∃ m, m + l.held.length ≤ n ∧ ReadyFor policy m l.windows windows

theorem Listens.regular (h : Listens policy n l windows) : Regular policy windows := by
  obtain ⟨m, -, hReady, rfl⟩ := h
  exact hReady.regular

theorem Listens.mono {m : Nat} (h : Listens policy m l windows) (hLe : m ≤ n) :
    Listens policy n l windows := by
  obtain ⟨k, hk, hReady⟩ := h
  exact ⟨k, by omega, hReady⟩

theorem classify_ready {m : Nat} {w : Windowing} (h : ReadyFor policy m w windows)
    (frames : List Frame) (hn : m + (heard frames).length ≤ sampleLimit) :
    Ensures windows (runAll classify w frames) (ReadyFor policy (m + (heard frames).length))
      (Regular policy) := by
  refine Ensures.runAll (P := fun done s out => ReadyFor policy (m + (heard done).length) s out) ?_ h
  intro before frame after s out hSplit hBefore
  have hLength : (heard frames).length =
      (heard before).length + frame.samples.length + (heard after).length := by
    rw [hSplit]
    simp [heard, Nat.add_assoc]
  have hCount : m + (heard (before ++ [frame])).length =
      m + (heard before).length + frame.samples.length := by
    simp [heard, Nat.add_assoc]
  rw [hCount]
  exact hBefore.append _ (by omega)

theorem Listens.hear (h : Listens policy n l windows) {v : VoiceActivity D} {k : Nat}
    {o : VoiceOutcome D} (hVad : l.vad = some v) (hCarries : Carries v k o)
    (hn : n + k ≤ sampleLimit) :
    Ensures windows (l.hear o) (Listens policy (n + k)) (Regular policy) := by
  obtain ⟨m, hm, hReady⟩ := h
  have hHeld : l.held = v.pending := by rw [held, hVad]
  rw [hHeld] at hm
  have hFrames : (heard o.emitted).length ≤ v.pending.length + k := by
    cases hError : o.error with
    | none =>
      have hDone := hCarries.done hError
      simp only [List.nil_append] at hDone
      omega
    | some e => simpa using hCarries.failed (by simp [hError])
  have hWindows := classify_ready hReady o.emitted (by omega)
  unfold Listener.hear
  dsimp only
  cases hError : (runAll classify l.windows o.emitted).error with
  | some e =>
    refine ⟨fun hNone => absurd hNone (Option.some_ne_none e), fun _ => ?_⟩
    exact hWindows.failed (by simp [hError])
  | none =>
    have hNext := hWindows.done hError
    refine ⟨fun hNone => ⟨_, ?_, hNext⟩, fun _ => hNext.2 ▸ hNext.1.regular⟩
    have hDone := hCarries.done hNone
    simp only [List.nil_append] at hDone
    simp only [held]
    omega

theorem Listens.cut (h : Listens policy n l windows) {o : WindowOutcome} {k : Nat}
    (hCut : ∀ m, m ≤ n → ReadyFor policy m l.windows windows →
      Ensures windows o (ReadyFor policy (m + k)) (Regular policy)) :
    Ensures windows (l.cut o) (Listens policy (n + k)) (Regular policy) := by
  obtain ⟨m, hm, hReady⟩ := h
  have hNext := hCut m (by omega) hReady
  refine ⟨fun hNone => ⟨m + k, ?_, hNext.done hNone⟩, hNext.failed⟩
  have hSame : (l.cut o).state.held = l.held := rfl
  rw [hSame]
  omega

theorem Listens.append (h : Listens policy n l windows) {samples : List Sample}
    (hn : n + samples.length ≤ sampleLimit) :
    Ensures windows (l.append samples) (Listens policy (n + samples.length)) (Regular policy) := by
  unfold Listener.append
  cases hVad : l.vad with
  | some v => exact h.hear hVad (VoiceActivity.append_carries v samples) hn
  | none => exact h.cut fun m hm hReady => hReady.append true (by omega)

theorem Listens.drain (h : Listens policy n l windows) {f : VoiceActivity D → VoiceOutcome D}
    (hDrain : ∀ v, Carries v 0 (f v)) (hn : n ≤ sampleLimit) :
    Ensures windows (l.drain f) (Listens policy n) (Regular policy) := by
  unfold Listener.drain
  cases hVad : l.vad with
  | some v => exact h.hear hVad (hDrain v) hn
  | none => exact Ensures.return_ h

theorem Listens.discontinuity (h : Listens policy n l windows) (hn : n ≤ sampleLimit) :
    Ensures windows l.discontinuity (Listens policy n) (Regular policy) := by
  refine Ensures.next (h.drain VoiceActivity.discontinuity_carries hn) fun l' windows' h' => ?_
  exact h'.cut (k := 0) fun m hm hReady => hReady.discontinuity (by omega)

/-- What a listener has emitted after its close, whether or not the close fails. -/
theorem Listens.finish (h : Listens policy n l windows) (hn : n ≤ sampleLimit) :
    Regular policy (windows ++ l.finish.emitted) := by
  have hDrain := h.drain VoiceActivity.finish_carries hn
  unfold Listener.finish
  cases hError : (l.drain VoiceActivity.finish).error with
  | some e =>
    rw [Outcome.next_of_error hError]
    exact hDrain.failed (by simp [hError])
  | none =>
    obtain ⟨m, hm, hReady⟩ := hDrain.done hError
    rw [Outcome.next_of_none hError]
    simpa [Listener.cut] using hReady.finish (by omega)

end Listener

end GrpcAsr.Media
