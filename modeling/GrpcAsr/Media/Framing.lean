import GrpcAsr.Media.AudioPartition

/-!
# Windows do not depend on how audio is framed

Detector and windows work sample by sample: appending a chunk is appending its samples
one at a time. Two series of calls with the same samples and the same discontinuities
therefore cut the same windows and end the same way.
-/

namespace GrpcAsr.Media

set_option autoImplicit false

open Emitting

/-- A call's samples one by one, with `none` for a discontinuity. -/
def AudioCall.script : AudioCall → List (Option Sample)
  | append samples => samples.map some
  | discontinuity => [none]

/-- Windows alone, with the same classification for all audio. -/
def Windowing.plain (speech : Bool) (w : Windowing) : AudioCall → WindowOutcome
  | .append samples => w.append samples speech
  | .discontinuity => w.discontinuity

namespace Windowing

theorem cutAtPause_finished (w : Windowing) : w.cutAtPause.state.finished = w.finished := by
  unfold cutAtPause
  split
  · exact emit_finished ..
  · rfl

theorem cutAtLimit_finished {w : Windowing} (h : w.cutAtLimit.error = none) :
    w.cutAtLimit.state.finished = w.finished := by
  unfold cutAtLimit at h ⊢
  split
  · split
    · rename_i hFull hFail
      rw [if_pos hFull, if_pos hFail] at h
      cases h
    · exact emit_finished ..
  · rfl

theorem receive_finished (w : Windowing) (speech : Bool) (sample : Sample) :
    (w.receive speech sample).finished = w.finished := by
  unfold receive
  simp only
  split
  · rfl
  · split <;> rfl

/-- A window stream stays open as long as nothing fails. -/
theorem appendSample_finished {speech : Bool} {w : Windowing} {sample : Sample}
    (h : (appendSample speech w sample).error = none) :
    (appendSample speech w sample).state.finished = w.finished := by
  unfold appendSample at h ⊢
  split
  · rfl
  · rename_i hFinite
    rw [if_neg hFinite] at h
    split
    · unfold cutFixed
      split
      · exact (emit_finished ..).trans (receive_finished ..)
      · exact receive_finished ..
    · rename_i hAware
      rw [if_neg hAware] at h
      obtain ⟨hPause, hLimit⟩ := Outcome.next_error_none h
      rw [Outcome.next_of_none hPause]
      exact (cutAtLimit_finished hLimit).trans
        ((cutAtPause_finished _).trans (receive_finished ..))

theorem append_eq {w : Windowing} (h : w.finished = false) (samples : List Sample)
    (speech : Bool) : w.append samples speech = runAll (appendSample speech) w samples := by
  rw [append, if_neg (by simp [h])]

theorem append_cons {w : Windowing} (h : w.finished = false) (sample : Sample)
    (samples : List Sample) (speech : Bool) :
    w.append (sample :: samples) speech =
      (w.append [sample] speech).next fun w' => w'.append samples speech := by
  rw [append_eq h, append_eq h, runAll_cons, runAll_singleton]
  cases hError : (appendSample speech w sample).error with
  | some e => rw [Outcome.next_of_error hError, Outcome.next_of_error hError]
  | none =>
    have hOpen := (appendSample_finished hError).trans h
    rw [Outcome.next_of_none hError, Outcome.next_of_none hError, append_eq hOpen]

theorem append_finished {w : Windowing} {samples : List Sample} {speech : Bool}
    (h : (w.append samples speech).error = none) :
    w.finished = false ∧ (w.append samples speech).state.finished = false := by
  cases hFinished : w.finished with
  | true =>
    rw [append, if_pos hFinished] at h
    cases h
  | false =>
    rw [append_eq hFinished] at h ⊢
    refine ⟨rfl, ?_⟩
    exact runAll_tracks (P := fun _ s _ => s.finished = false)
      (fun _ s x _ hs hOk => (appendSample_finished hOk).trans hs) samples [] w [] hFinished h

theorem discontinuity_finished {w : Windowing} (h : w.discontinuity.error = none) :
    w.discontinuity.state.finished = false := by
  unfold discontinuity at h ⊢
  split
  · rename_i hFinished
    rw [if_pos hFinished] at h
    cases h
  · rename_i hOpen
    rw [Outcome.next_of_none (emit_error ..)]
    exact (emit_finished ..).trans (by simpa using hOpen)

end Windowing

namespace VoiceActivity

variable {D : Detector}

theorem flush_closed (v : VoiceActivity D) : v.flush.state.closed = v.closed := by
  unfold flush
  split
  · rfl
  · split
    · split <;> rfl
    · rfl
    · rfl

theorem appendSample_closed (v : VoiceActivity D) (sample : Sample) :
    (v.appendSample sample).state.closed = v.closed := by
  unfold appendSample
  split
  · rfl
  · simp only
    split
    · exact flush_closed _
    · rfl

theorem append_closed {v : VoiceActivity D} {samples : List Sample}
    (h : (v.append samples).error = none) : (v.append samples).state.closed = false := by
  unfold append at h ⊢
  split at h
  · cases h
  · rename_i hOpen
    obtain ⟨hEq, hOk⟩ := closing_of_none h
    rw [if_neg hOpen, hEq]
    exact runAll_tracks (P := fun _ s _ => s.closed = false)
      (fun _ s x _ hs _ => (appendSample_closed s x).trans hs) samples [] v []
      (by simpa using hOpen) hOk

theorem discontinuity_closed {v : VoiceActivity D} (h : v.discontinuity.error = none) :
    v.discontinuity.state.closed = false := by
  unfold discontinuity at h ⊢
  split at h
  · cases h
  · rename_i hOpen
    obtain ⟨hEq, hOk⟩ := closing_of_none h
    rw [if_neg hOpen, hEq, Outcome.next_of_none (Outcome.next_error_none hOk).1]
    exact (flush_closed v).trans (by simpa using hOpen)

end VoiceActivity

namespace Listener

variable {D : Detector} {l : Listener D}

/-- Neither the detector nor the windows are closed. -/
structure Usable (l : Listener D) : Prop where
  windows : l.windows.finished = false
  vad : ∀ v, l.vad = some v → v.closed = false

/-- One item of a script. -/
def item (l : Listener D) : Option Sample → ListenOutcome D
  | some sample => l.append [sample]
  | none => l.discontinuity

/-- The windows hear two series of frames as one. -/
theorem hear_next {o : VoiceOutcome D} {f : VoiceActivity D → VoiceOutcome D} :
    (l.hear (o.next f)).Agrees ((l.hear o).next fun l' => l'.hear (f o.state)) := by
  cases hVoice : o.error with
  | some e =>
    have hError : (l.hear o).error.isSome = true := by
      simp only [hear]
      split
      · rfl
      · exact Option.isSome_of_eq_some hVoice
    obtain ⟨error, hError⟩ := Option.isSome_iff_exists.mp hError
    rw [Outcome.next_of_error hVoice, Outcome.next_of_error hError]
    exact .refl _
  | none =>
    rw [Outcome.next_of_none hVoice]
    unfold hear
    simp only [runAll_append]
    cases hFirst : (runAll classify l.windows o.emitted).error with
    | some e =>
      rw [Outcome.next_of_error hFirst]
      simp only [hFirst]
      exact ⟨rfl, rfl, fun hOk => nomatch hOk⟩
    | none =>
      rw [Outcome.next_of_none hFirst]
      simp only [hVoice]
      rw [Outcome.next_of_none rfl]
      simp only
      split <;> exact ⟨rfl, rfl, fun _ => rfl⟩

theorem hear_closing (o : VoiceOutcome D) :
    (l.hear (VoiceActivity.closing o)).Agrees (l.hear o) := by
  unfold VoiceActivity.closing hear
  split
  · rename_i hError
    simp only
    split
    · exact ⟨rfl, rfl, fun hOk => nomatch hOk⟩
    · refine ⟨rfl, rfl, fun hOk => ?_⟩
      rw [show o.error = none from hOk] at hError
      cases hError
  · exact .refl _

theorem append_nil (h : l.Usable) : l.append [] = ⟨l, [], none⟩ := by
  obtain ⟨vad, windows⟩ := l
  cases vad with
  | none =>
    simp only [append, Windowing.append_eq h.windows, runAll_nil, cut]
  | some v =>
    simp only [append, VoiceActivity.append, h.vad v rfl, runAll_nil, VoiceActivity.closing, hear,
      Bool.false_eq_true, if_false, Option.isSome_none]

theorem cut_next {o : WindowOutcome} {f : Windowing → WindowOutcome} :
    l.cut (o.next f) = (l.cut o).next fun l' => l'.cut (f l'.windows) := by
  cases hError : o.error with
  | some e =>
    rw [Outcome.next_of_error hError, Outcome.next_of_error (o := l.cut o) hError]
  | none =>
    rw [Outcome.next_of_none hError, Outcome.next_of_none (o := l.cut o) hError]
    rfl

/-- Appending a chunk is appending its first sample and then the others. -/
theorem append_cons (h : l.Usable) (sample : Sample) (samples : List Sample) :
    (l.append (sample :: samples)).Agrees
      ((l.append [sample]).next fun l' => l'.append samples) := by
  obtain ⟨vad, windows⟩ := l
  cases vad with
  | none =>
    have hWindows := Windowing.append_cons h.windows sample samples true
    simp only [append, hWindows, cut_next]
    refine Outcome.Agrees.next (.refl _) fun _ => ?_
    simp only [cut]
    exact .refl _
  | some v =>
    have hOpen := h.vad v rfl
    simp only [append, VoiceActivity.append, hOpen, Bool.false_eq_true, if_false]
    refine (hear_closing _).trans ?_
    rw [runAll_cons, runAll_singleton]
    refine hear_next.trans (Outcome.Agrees.next (hear_closing _).symm fun hOk => ?_)
    obtain ⟨hClosing, -, hEq⟩ := hear_error_none hOk
    obtain ⟨hSame, hVoice⟩ := VoiceActivity.closing_of_none hClosing
    have hStill : (v.appendSample sample).state.closed = false :=
      (VoiceActivity.appendSample_closed v sample).trans hOpen
    rw [hEq, hSame]
    simp only [hStill, Bool.false_eq_true, if_false]
    exact (hear_closing _).symm

theorem hear_usable {o : VoiceOutcome D} (h : l.Usable) (hOk : (l.hear o).error = none)
    (hClosed : o.error = none → o.state.closed = false) : (l.hear o).state.Usable := by
  obtain ⟨hVoice, hWindows, hEq⟩ := hear_error_none hOk
  rw [hEq]
  refine ⟨?_, ?_⟩
  · exact runAll_tracks (P := fun _ s _ => s.finished = false)
      (fun _ s frame _ _ hFrame => (Windowing.append_finished hFrame).2) o.emitted [] l.windows []
      h.windows hWindows
  · rintro v ⟨⟩
    exact hClosed hVoice

theorem item_usable (h : l.Usable) {entry : Option Sample} (hOk : (l.item entry).error = none) :
    (l.item entry).state.Usable := by
  obtain ⟨vad, windows⟩ := l
  cases entry with
  | some sample =>
    cases vad with
    | none => exact ⟨(Windowing.append_finished hOk).2, fun _ hNone => nomatch hNone⟩
    | some v => exact hear_usable h hOk VoiceActivity.append_closed
  | none =>
    simp only [item, discontinuity] at hOk ⊢
    obtain ⟨hDrain, hCut⟩ := Outcome.next_error_none hOk
    rw [Outcome.next_of_none hDrain]
    refine ⟨Windowing.discontinuity_finished hCut, ?_⟩
    cases vad with
    | none => exact fun _ hNone => nomatch hNone
    | some v => exact (hear_usable h hDrain VoiceActivity.discontinuity_closed).vad

theorem append_items (h : l.Usable) (samples : List Sample) :
    (l.append samples).Agrees (runAll item l (samples.map some)) := by
  induction samples generalizing l with
  | nil =>
    rw [append_nil h]
    exact .refl _
  | cons sample samples ih =>
    refine (append_cons h sample samples).trans ?_
    rw [List.map_cons, runAll_cons]
    exact Outcome.Agrees.next (.refl _) fun hOk => ih (item_usable h hOk)

theorem call_items (h : l.Usable) (call : AudioCall) :
    (l.call call).Agrees (runAll item l call.script) := by
  cases call with
  | append samples => exact append_items h samples
  | discontinuity =>
    rw [AudioCall.script, runAll_singleton]
    exact .refl _

end Listener

namespace Windowing

variable {w : Windowing} {speech : Bool}

/-- One item of a script. -/
def plainItem (speech : Bool) (w : Windowing) : Option Sample → WindowOutcome
  | some sample => w.append [sample] speech
  | none => w.discontinuity

theorem plainItem_finished {entry : Option Sample} (hOk : (plainItem speech w entry).error = none) :
    (plainItem speech w entry).state.finished = false := by
  cases entry with
  | some sample => exact (append_finished hOk).2
  | none => exact discontinuity_finished hOk

theorem append_items (h : w.finished = false) (samples : List Sample) :
    w.append samples speech = runAll (plainItem speech) w (samples.map some) := by
  rw [append_eq h]
  induction samples generalizing w with
  | nil => rfl
  | cons sample samples ih =>
    have hFirst : plainItem speech w (some sample) = appendSample speech w sample :=
      (append_eq h [sample] speech).trans (runAll_singleton ..)
    rw [List.map_cons, runAll_cons, runAll_cons, hFirst]
    cases hError : (appendSample speech w sample).error with
    | some e => rw [Outcome.next_of_error hError, Outcome.next_of_error hError]
    | none =>
      rw [Outcome.next_of_none hError, Outcome.next_of_none hError,
        ih ((appendSample_finished hError).trans h)]

theorem plain_items (h : w.finished = false) (call : AudioCall) :
    (plain speech w call).Agrees (runAll (plainItem speech) w call.script) := by
  cases call with
  | append samples =>
    rw [plain, append_items h]
    exact .refl _
  | discontinuity =>
    rw [AudioCall.script, runAll_singleton]
    exact .refl _

end Windowing

/-- A whole track behind a detector: the calls and the end of the audio. -/
def Windowing.heardBy (D : Detector) (w : Windowing) (calls : List AudioCall) : ListenOutcome D :=
  (Listener.run ⟨some (VoiceActivity.create D), w⟩ calls).next Listener.finish

/-- A whole track with one classification for all of it. -/
def Windowing.track (speech : Bool) (w : Windowing) (calls : List AudioCall) : WindowOutcome :=
  (runAll (Windowing.plain speech) w calls).next Windowing.finish

/-- Calls with the same samples and discontinuities cut the same windows and end the same
way, behind any detector and with any constant classification. -/
theorem windows_ignore_framing {policy : WindowPolicy} {w : Windowing}
    (hCreate : Windowing.create policy = .ok w) {calls calls' : List AudioCall}
    (hScript : calls.flatMap AudioCall.script = calls'.flatMap AudioCall.script) :
    (∀ D : Detector, (w.heardBy D calls).emitted = (w.heardBy D calls').emitted ∧
      (w.heardBy D calls).error = (w.heardBy D calls').error) ∧
    ∀ speech : Bool, (w.track speech calls).emitted = (w.track speech calls').emitted ∧
      (w.track speech calls).error = (w.track speech calls').error := by
  have hOpen : w.finished = false := by
    rw [(Windowing.create_eq_ok hCreate).2.2]
  refine ⟨fun D => ?_, fun speech => ?_⟩
  · have hUsable : Listener.Usable (⟨some (VoiceActivity.create D), w⟩ : Listener D) := by
      refine ⟨hOpen, ?_⟩
      rintro v ⟨⟩
      rfl
    have hItems (calls : List AudioCall) := runAll_flatMap
      (fun _ call hListener => Listener.call_items hListener call)
      (fun _ _ hListener => Listener.item_usable hListener) calls hUsable
    have hSame : (w.heardBy D calls).Agrees (w.heardBy D calls') := by
      refine Outcome.Agrees.next ((hItems calls).trans ?_) fun _ => .refl _
      rw [hScript]
      exact (hItems calls').symm
    exact ⟨hSame.emitted, hSame.error⟩
  · have hItems (calls : List AudioCall) := runAll_flatMap
      (fun _ call hWindows => @Windowing.plain_items _ speech hWindows call)
      (fun _ _ _ => Windowing.plainItem_finished) calls hOpen
    have hSame : (w.track speech calls).Agrees (w.track speech calls') := by
      refine Outcome.Agrees.next ((hItems calls).trans ?_) fun _ => .refl _
      rw [hScript]
      exact (hItems calls').symm
    exact ⟨hSame.emitted, hSame.error⟩

/-- A detector that hears speech in every other frame since its last reset. -/
def blinking : Detector where
  State := Bool
  initial := true
  detect speech _ := (!speech, some [some (if speech then 1 else 0)])
  reset _ := true

theorem windows_ignore_framing_short :
    ((Windowing.mk shortWindows [] 0 0 0 0 0 false false).heardBy blinking
        [.append [1, 2, 3, 4, 5], .discontinuity, .append [6]]).emitted =
      ((Windowing.mk shortWindows [] 0 0 0 0 0 false false).heardBy blinking
        [.append [1, 2], .append [], .append [3, 4, 5], .discontinuity, .append [6]]).emitted ∧
    ((Windowing.mk shortWindows [] 0 0 0 0 0 false false).heardBy blinking
        [.append [1, 2, 3, 4, 5], .discontinuity, .append [6]]).emitted.map
      (fun window => (window.number, window.samples)) = [(1, [1, 2, 3, 4]), (2, [4, 5]), (3, [6])] :=
  ⟨((@windows_ignore_framing shortWindows _ rfl _ _ (by decide)).1 blinking).1, by decide +kernel⟩

end GrpcAsr.Media
