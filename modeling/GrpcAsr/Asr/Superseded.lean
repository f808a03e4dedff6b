import GrpcAsr.Asr.TranscriberRuns
import GrpcAsr.Library.History

/-!
# Partials and the finals that replace them

A window whose last segment is held back shows it as a partial and leaves its final to
the windows that follow. They number their segments from the same index, so the first of
them that decodes anything replaces it; if none does, the partial is never replaced.
-/

namespace GrpcAsr.Asr

set_option autoImplicit false

open Interaction Routine Transcriber
open Media (Bytes ascii)

namespace Whisper

/-- The code and the segments a call returns with when no stop is seen. -/
def outcome : Whisper → Int × List WhisperSegment
  | .returns code segments _ => (code, segments)
  | .poll next => (next false).outcome
  | .newSegment _ _ next => next.outcome

/-- With so many segments reported before, the call reports each of its segments once. -/
def ReportsOnce (reported : Nat) : Whisper → Prop
  | .returns _ segments _ => segments.length = reported
  | .poll next => (next false).ReportsOnce reported
  | .newSegment segments count next =>
    segments.length = reported + count ∧ next.ReportsOnce segments.length

end Whisper

/-- A window as it was given to the decoder, with the segments that came back. -/
structure Window where
  buffer : List Sample
  segments : List WhisperSegment

/-- The windows of a run's whisper calls. -/
def Surroundings.windows (env : Surroundings) (calls : List WindowCall) : List Window :=
  calls.zipIdx.map fun entry => ⟨entry.1.buffer, (env.whisper entry.2 entry.1.buffer).outcome.2⟩

/-- The window keeps its last segment back if it is not the last one. -/
def Window.HoldsBack (window : Window) : Prop :=
  (cutWindow window.segments.length false (windowMs window.buffer)
    (lastStartMs window.segments)).finalize < window.segments.length

/-- Whenever a window keeps a segment back, some later window decodes a segment. -/
def Resumed (windows : List Window) : Prop :=
  ∀ before window next after, windows = before ++ window :: next :: after → window.HoldsBack →
    ∃ later ∈ next :: after, later.segments ≠ []

/-- Every segment shown as a partial is also shown as a final. -/
def Superseded (session : Session) : Prop :=
  ∀ preview ∈ session.partials, ∃ final ∈ session.finals, final.index = preview.index

section Windows

/-- A segment was kept back and no window after it decoded any. -/
def Pending (windows : List Window) : Prop :=
  ∃ before window after, windows = before ++ window :: after ∧ window.HoldsBack ∧
    ∀ later ∈ after, later.segments = []

theorem pending_nil : ¬ Pending [] := by
  rintro ⟨before, window, after, hSplit, -⟩
  cases before <;> cases hSplit

theorem pending_snoc {windows : List Window} {last : Window} :
    Pending (windows ++ [last]) ↔ last.HoldsBack ∨ last.segments = [] ∧ Pending windows := by
  constructor
  · rintro ⟨before, window, after, hSplit, hHeld, hEmpty⟩
    rcases History.snoc_eq_append_cons.mp hSplit with ⟨-, rfl, -⟩ | ⟨rest, rfl, hWindows⟩
    · exact .inl hHeld
    · exact .inr ⟨hEmpty _ (by simp), before, window, rest, hWindows, hHeld,
        fun other hOther => hEmpty other (List.mem_append_left _ hOther)⟩
  · rintro (hHeld | ⟨hNil, before, window, after, rfl, hHeld, hEmpty⟩)
    · exact ⟨windows, last, [], rfl, hHeld, fun _ hFalse => nomatch hFalse⟩
    · refine ⟨before, window, after ++ [last], by simp, hHeld, fun other hOther => ?_⟩
      rcases List.mem_append.mp hOther with hOld | hLast
      · exact hEmpty other hOld
      · rw [List.mem_singleton.mp hLast]
        exact hNil

/-- A run that ended with the given window left a partial behind. -/
theorem not_resumed_snoc {windows : List Window} {last : Window} :
    ¬ Resumed (windows ++ [last]) ↔ last.segments = [] ∧ Pending windows := by
  constructor
  · intro h
    simp only [Resumed, not_forall, not_exists, not_and, not_not] at h
    obtain ⟨before, window, next, after, hSplit, hHeld, hEmpty⟩ := h
    have hNext := hSplit.trans (List.append_cons before window (next :: after))
    rcases History.snoc_eq_append_cons.mp hNext with ⟨rfl, rfl, -⟩ | ⟨rest, rfl, hWindows⟩
    · exact ⟨hEmpty _ (by simp), before, window, [], rfl, hHeld, fun _ hFalse => nomatch hFalse⟩
    · rw [← List.append_cons] at hWindows
      exact ⟨hEmpty _ (by simp), before, window, next :: rest, hWindows, hHeld,
        fun other hOther => hEmpty other (List.mem_append_left [last] hOther)⟩
  · rintro ⟨hNil, before, window, after, rfl, hHeld, hEmpty⟩ hResumed
    have hAll : ∀ later ∈ after ++ [last], later.segments = [] := by
      intro later hLater
      rcases List.mem_append.mp hLater with hOld | hLast
      · exact hEmpty later hOld
      · rw [List.mem_singleton.mp hLast]
        exact hNil
    cases hAfter : after ++ [last] with
    | nil => exact absurd hAfter (by simp)
    | cons next rest =>
      obtain ⟨later, hLater, hSome⟩ := hResumed before window next rest
        (by rw [← hAfter]; simp) hHeld
      rw [← hAfter] at hLater
      exact hSome (hAll later hLater)

/-- When the last window kept nothing back, a pending segment is one that was not resumed. -/
theorem not_resumed_iff {windows : List Window}
    (h : ∀ before last, windows = before ++ [last] → ¬ last.HoldsBack) :
    ¬ Resumed windows ↔ Pending windows := by
  rcases List.eq_nil_or_concat windows with rfl | ⟨before, last, rfl⟩
  · refine ⟨fun hNot => absurd ?_ hNot, fun hPending => absurd hPending pending_nil⟩
    rintro before window next after hSplit
    cases before <;> cases hSplit
  · rw [List.concat_eq_append] at h ⊢
    rw [not_resumed_snoc, pending_snoc]
    constructor
    · exact .inr
    · rintro (hHeld | hPending)
      · exact absurd hHeld (h before last rfl)
      · exact hPending

theorem windows_snoc (env : Surroundings) (calls : List WindowCall) (call : WindowCall) :
    env.windows (calls ++ [call]) =
      env.windows calls ++ [⟨call.buffer, (env.whisper calls.length call.buffer).outcome.2⟩] := by
  simp [Surroundings.windows, List.zipIdx_append]

end Windows

section Previews

/-- The partials are those of indexes that were finalized, and of the next one if it is
pending. -/
structure Previews (partials : List UInt32) (finalized : Nat) (pending : Prop) : Prop where
  index : ∀ p ∈ partials, ∃ i, p = UInt32.ofNat i ∧ (i < finalized ∨ i = finalized ∧ pending)
  pending : pending → UInt32.ofNat finalized ∈ partials

theorem Previews.imp {partials : List UInt32} {finalized : Nat} {p q : Prop}
    (h : Previews partials finalized p) (hIff : p ↔ q) : Previews partials finalized q := by
  rwa [propext hIff] at h

/-- The indexes a window shows when it numbers from `base`. -/
def shown (base count : Nat) : List UInt32 :=
  (List.range count).map fun i => UInt32.ofNat (base + i)

theorem shown_add (base count more : Nat) :
    shown base (count + more) =
      shown base count ++ (List.range' count more).map fun i => UInt32.ofNat (base + i) := by
  rw [shown, List.range_add, List.map_append, List.range'_eq_map_range, List.map_map]
  rfl

/-- All segments of a window were shown, then all of them were finalized. -/
theorem Previews.whole {partials : List UInt32} {base count : Nat} {p q : Prop}
    (h : Previews partials base p) (hPending : q ↔ count = 0 ∧ p) :
    Previews (partials ++ shown base count) (base + count) q := by
  constructor
  · intro index hIndex
    rcases List.mem_append.mp hIndex with hOld | hNew
    · obtain ⟨i, rfl, hLess | ⟨rfl, hp⟩⟩ := h.index index hOld
      · exact ⟨i, rfl, .inl (by omega)⟩
      · refine ⟨i, rfl, ?_⟩
        by_cases hZero : count = 0
        · exact .inr ⟨by omega, hPending.mpr ⟨hZero, hp⟩⟩
        · exact .inl (by omega)
    · obtain ⟨j, hj, rfl⟩ := List.mem_map.mp hNew
      rw [List.mem_range] at hj
      exact ⟨base + j, rfl, .inl (by omega)⟩
  · intro hq
    obtain ⟨rfl, hp⟩ := hPending.mp hq
    exact List.mem_append_left _ (h.pending hp)

/-- All segments of a window were shown, then all but the last were finalized. -/
theorem Previews.held {partials : List UInt32} {base count : Nat} {p q : Prop}
    (h : Previews partials base p) (hq : q) (hCount : 0 < count) :
    Previews (partials ++ shown base (count + 1)) (base + count) q := by
  constructor
  · intro index hIndex
    rcases List.mem_append.mp hIndex with hOld | hNew
    · obtain ⟨i, rfl, hLess | ⟨rfl, -⟩⟩ := h.index index hOld
      · exact ⟨i, rfl, .inl (by omega)⟩
      · exact ⟨i, rfl, .inl (by omega)⟩
    · obtain ⟨j, hj, rfl⟩ := List.mem_map.mp hNew
      rw [List.mem_range] at hj
      refine ⟨base + j, rfl, ?_⟩
      by_cases hLast : j = count
      · exact .inr ⟨by omega, hq⟩
      · exact .inl (by omega)
  · intro _
    exact List.mem_append_right _ (List.mem_map.mpr ⟨count, by simp, rfl⟩)

end Previews

/-- The indexes of a stretch of a window's segments. -/
theorem readSegments_indexes {options : EngineOptions} {run : RunState}
    {segments : List WhisperSegment} {base : Nat} (hBase : run.windowBaseIndex = UInt32.ofNat base)
    (start : Nat) :
    (readSegments options run segments start segments.length).map EngineSegment.index =
      (List.range' start (segments.length - start)).map fun i => UInt32.ofNat (base + i) := by
  have hIndex : (EngineSegment.index ∘ fun entry : WhisperSegment × Nat =>
      readSegment options run segments entry.2 entry.1) =
      (fun i => UInt32.ofNat (base + i)) ∘ Prod.snd := by
    funext entry
    simp [readSegment, hBase]
  rw [readSegments, List.map_map, hIndex, ← List.map_map, List.map_drop, List.map_take,
    List.zipIdx_map_snd, List.take_of_length_le (by simp), List.drop_range']
  simp

/-- What it takes to keep the last segment back. -/
theorem cutWindow_held {segments : Nat} {lastWindow : Bool} {windowMs lastStartMs : UInt64}
    (h : (cutWindow segments lastWindow windowMs lastStartMs).finalize < segments) :
    lastWindow = false ∧ 2 ≤ segments ∧ lastStartMs < windowMs ∧
      cutWindow segments lastWindow windowMs lastStartMs = ⟨segments - 1, lastStartMs⟩ := by
  unfold cutWindow at h ⊢
  split at h
  · rename_i hZero
    omega
  · split at h
    · rename_i hZero hHeld
      simp only [Bool.and_eq_true, Bool.not_eq_true', decide_eq_true_eq] at hHeld
      rw [if_neg hZero, if_pos (by simp [hHeld])]
      exact ⟨hHeld.1.1.1, hHeld.1.1.2, hHeld.2, rfl⟩
    · exact absurd h (Nat.lt_irrefl _)

/-- Resuming before the window's end leaves some of its samples. -/
theorem keepFrom_lt {buffer : List Sample} {resumeMs : UInt64} (h : resumeMs < windowMs buffer) :
    (resumeMs * UInt64.ofNat modelSampleRate / 1000).toNat < buffer.length := by
  have hWindow : (windowMs buffer).toNat = buffer.length * 1000 % 2 ^ 64 / 16000 := by
    simp [windowMs, modelSampleRate, UInt64.toNat_div, UInt64.toNat_mul]
  have hResume : resumeMs.toNat < buffer.length * 1000 % 2 ^ 64 / 16000 := by
    rw [← hWindow]
    exact UInt64.lt_iff_toNat_lt.mp h
  have hKeep : (resumeMs * UInt64.ofNat modelSampleRate / 1000).toNat =
      resumeMs.toNat * 16000 % 2 ^ 64 / 1000 := by
    simp [modelSampleRate, UInt64.toNat_div, UInt64.toNat_mul]
  have hLess : buffer.length * 1000 % 2 ^ 64 < 2 ^ 64 := Nat.mod_lt _ (by decide)
  have hLe : buffer.length * 1000 % 2 ^ 64 ≤ buffer.length * 1000 := Nat.mod_le _ _
  generalize buffer.length * 1000 % 2 ^ 64 = product at hResume hLess hLe
  rw [hKeep, Nat.mod_eq_of_lt (by omega)]
  omega

/-- A segment kept back has samples left to decode again. -/
theorem carry_ne_nil {loop : Loop} {segments : List WhisperSegment} {finals : List EngineSegment}
    {result : EngineResult} (hSource : loop.sourceDone = false)
    (hHeld : (⟨loop.buffer, segments⟩ : Window).HoldsBack) :
    (carry loop finals (loop.cut segments) result).buffer ≠ [] := by
  obtain ⟨-, -, hInside, hFinalize⟩ := cutWindow_held hHeld
  have hKeep := keepFrom_lt hInside
  dsimp only at hKeep
  rw [carry, Loop.cut, hSource, hFinalize, ← List.length_pos_iff, List.length_drop]
  dsimp only
  omega

theorem Surroundings.stopSeen_succ {env : Surroundings} {checks : Nat}
    (h : env.stopSeen checks = true) : env.stopSeen (checks + 1) = true := by
  rw [stopSeen, Option.any_eq_true] at h ⊢
  obtain ⟨first, hFirst, hLe⟩ := h
  exact ⟨first, hFirst, by simp at hLe ⊢; omega⟩

section Run

variable (env : Surroundings)

structure PreviewHead (loop : Loop) (session : Session) : Prop where
  running : loop.result.aborted = false
  numbers : loop.run.windowBaseIndex = UInt32.ofNat session.finals.length
  previews : Previews (session.partials.map EngineSegment.index) session.finals.length
    (Pending (env.windows session.calls))
  carried : ∀ before last, env.windows session.calls = before ++ [last] → last.HoldsBack →
    loop.buffer ≠ []

/-- Inside a call: what it has shown and what it will have shown with the rest. -/
structure PreviewCall (loop : Loop) (rest : List EngineSegment) (whisper : Whisper) (run : RunState)
    (session : Session) (calls : List WindowCall) (old : List UInt32) (reported : Nat) : Prop where
  running : loop.result.aborted = false
  numbers : run.windowBaseIndex = UInt32.ofNat session.finals.length
  called : ∃ call : WindowCall, session.calls = calls ++ [call] ∧ call.buffer = loop.buffer
  outcome : whisper.outcome = (env.whisper calls.length loop.buffer).outcome
  reports : whisper.ReportsOnce reported
  shows : session.partials.map EngineSegment.index ++ rest.map EngineSegment.index =
    old ++ shown session.finals.length reported
  previews : Previews old session.finals.length (Pending (env.windows calls))

/-- After a call: everything it returned was shown, and some of its finals are out. -/
structure PreviewEmit (loop : Loop) (segments : List WhisperSegment) (rest : List EngineSegment)
    (result : EngineResult) (session : Session) (calls : List WindowCall) (old : List UInt32)
    (base sent : Nat) : Prop where
  running : result.aborted = false
  numbers : loop.run.windowBaseIndex = UInt32.ofNat base
  called : ∃ call : WindowCall, session.calls = calls ++ [call] ∧ call.buffer = loop.buffer
  outcome : segments = (env.whisper calls.length loop.buffer).outcome.2
  shows : session.partials.map EngineSegment.index = old ++ shown base segments.length
  previews : Previews old base (Pending (env.windows calls))
  finals : session.finals.length = base + sent
  left : sent + rest.length = (loop.cut segments).finalize

variable {env}

theorem PreviewEmit.windows {loop : Loop} {segments : List WhisperSegment}
    {rest : List EngineSegment} {result : EngineResult} {session : Session}
    {calls : List WindowCall} {old : List UInt32} {base sent : Nat}
    (h : PreviewEmit env loop segments rest result session calls old base sent) :
    env.windows session.calls = env.windows calls ++ [⟨loop.buffer, segments⟩] := by
  obtain ⟨call, hCalls, hBuffer⟩ := h.called
  rw [hCalls, windows_snoc, hBuffer, h.outcome]

/-- The last window finalizes all it has shown. -/
theorem PreviewEmit.last {loop : Loop} {segments : List WhisperSegment} {result : EngineResult}
    {session : Session} {calls : List WindowCall} {old : List UInt32} {base sent : Nat}
    (h : PreviewEmit env loop segments [] result session calls old base sent)
    (hSource : loop.sourceDone = true) :
    Previews (session.partials.map EngineSegment.index) session.finals.length
      (¬ Resumed (env.windows session.calls)) := by
  have hAll : (loop.cut segments).finalize = segments.length := by
    by_contra hNot
    have hLess : (loop.cut segments).finalize < segments.length :=
      Nat.lt_of_le_of_ne (cutWindow_finalize_le _ _ _ _) hNot
    exact absurd (cutWindow_held hLess).1 (by simp [hSource])
  have hSent := h.left
  rw [List.length_nil, hAll, Nat.add_zero] at hSent
  rw [h.shows, h.finals, hSent, h.windows]
  refine h.previews.whole ?_
  rw [not_resumed_snoc, ← List.length_eq_zero_iff]

/-- A window before the last leaves at most its last segment pending. -/
theorem PreviewEmit.next {options : EngineOptions} {loop : Loop} {segments : List WhisperSegment}
    {result : EngineResult} {session : Session} {calls : List WindowCall} {old : List UInt32}
    {base sent : Nat} (h : PreviewEmit env loop segments [] result session calls old base sent)
    (hSource : loop.sourceDone = false) :
    PreviewHead env (carry loop (loop.finals options segments) (loop.cut segments) result)
      session := by
  have hSent := h.left
  rw [List.length_nil, Nat.add_zero] at hSent
  have hCut : loop.cut segments =
      cutWindow segments.length false (windowMs loop.buffer) (lastStartMs segments) := by
    rw [Loop.cut, hSource]
  refine ⟨h.running, ?_, ?_, ?_⟩
  · rw [h.finals, hSent, UInt32.ofNat_add, ← h.numbers]
    rfl
  · rw [h.shows, h.finals, hSent, h.windows]
    by_cases hHeld : (⟨loop.buffer, segments⟩ : Window).HoldsBack
    · obtain ⟨-, hTwo, -, hFinalize⟩ := cutWindow_held hHeld
      dsimp only at hTwo
      rw [hCut, hFinalize]
      have hLength : segments.length = segments.length - 1 + 1 := by omega
      rw [hLength, Nat.add_sub_cancel]
      exact h.previews.held (pending_snoc.mpr (.inl hHeld)) (by omega)
    · have hAll : (loop.cut segments).finalize = segments.length := by
        rw [hCut]
        exact Nat.le_antisymm (cutWindow_finalize_le _ _ _ _) (Nat.le_of_not_lt hHeld)
      rw [hAll]
      refine h.previews.whole ?_
      rw [pending_snoc, ← List.length_eq_zero_iff]
      exact or_iff_right hHeld
  · intro before last hWindows hHeld
    rw [h.windows] at hWindows
    obtain ⟨-, hLast⟩ := List.append_inj' hWindows rfl
    obtain rfl := List.singleton_inj.mp hLast
    exact carry_ne_nil hSource hHeld

@[simp] theorem partials_snoc (session : Session) (segment : EngineSegment) (isFinal : Bool) :
    ({ session with emitted := session.emitted ++ [(segment, isFinal)] } : Session).partials =
      session.partials ++ if isFinal then [] else [segment] := by
  cases isFinal <;> simp [Session.partials]

@[simp] theorem finals_snoc (session : Session) (segment : EngineSegment) (isFinal : Bool) :
    ({ session with emitted := session.emitted ++ [(segment, isFinal)] } : Session).finals =
      session.finals ++ if isFinal then [segment] else [] := by
  cases isFinal <;> simp [Session.finals]

/-- In a run that completes, a partial is pending only if its window was not resumed. -/
def previewPlan (env : Surroundings) (options : EngineOptions)
    (hReports : ∀ call buffer, (env.whisper call buffer).ReportsOnce 0) :
    Plan (Contract.serving env.serve) engineHost options fun _ _ _ => True where
  head _ loop _ session := PreviewHead env loop session
  ready _ loop _ session := PreviewHead env loop session
  busy _ loop rest whisper run _ session :=
    (run.abort = true ∨ env.stopSeen session.checks = true) ∨
      ∃ calls old reported, PreviewCall env loop rest whisper run session calls old reported
  emitting _ loop segments rest result _ session :=
    ∃ calls old base sent, PreviewEmit env loop segments rest result session calls old base sent
  failing _ _ := True
  done result _ session := result.aborted = false →
    Previews (session.partials.map EngineSegment.index) session.finals.length
      (¬ Resumed (env.windows session.calls))
  wait _ := Triple.throw _ fun _ _ _ => trivial
  throw _ := Triple.throw _ fun _ _ _ => trivial
  aborted := fun _ _ hFalse => nomatch hFalse
  stop n loop := by
    refine request_triple fun s session h => ?_
    split
    · exact fun hFalse => nomatch hFalse
    · exact ⟨h.running, h.numbers, h.previews, h.carried⟩
  finished := by
    intro n loop s session h _ hNil _
    refine h.previews.imp (not_resumed_iff fun before last hWindows hHeld => ?_).symm
    exact h.carried before last hWindows hHeld hNil
  read n loop _ := by
    refine request_triple fun s session h => ?_
    split
    · exact ⟨h.running, h.numbers, h.previews, h.carried⟩
    · split
      · trivial
      · refine ⟨h.running, h.numbers, h.previews, fun before last hWindows hHeld hNil => ?_⟩
        exact h.carried before last hWindows hHeld (List.append_eq_nil_iff.mp hNil).1
  call n loop _ _ := by
    refine request_triple fun s session h =>
      .inr ⟨session.calls, session.partials.map EngineSegment.index, 0, ?_⟩
    exact ⟨h.running, h.numbers, ⟨_, rfl, rfl⟩, rfl, hReports _ _, rfl, h.previews⟩
  report := by
    rintro n loop segments count next run s session (hDoomed | ⟨calls, old, reported, h⟩)
    · exact .inl hDoomed
    · obtain ⟨hLength, hNext⟩ := h.reports
      refine .inr ⟨calls, old, segments.length, ?_⟩
      refine ⟨h.running, h.numbers, h.called, h.outcome, hNext, ?_, h.previews⟩
      have hShows := h.shows
      rw [List.map_nil, List.append_nil] at hShows
      rw [hShows, readSegments_indexes h.numbers, hLength, Nat.add_sub_cancel, shown_add,
        List.append_assoc, Nat.add_sub_cancel_left]
  sink n loop segment segments whisper run := by
    refine request_triple fun s session h => ?_
    rcases h with (hAbort | hStop) | ⟨calls, old, reported, h⟩
    · refine .inl (.inl ?_)
      split
      · exact hAbort
      · rfl
    · exact .inl (.inr hStop)
    · split
      · refine .inr ⟨calls, old, reported, ?_⟩
        refine ⟨h.running, ?_, h.called, h.outcome, h.reports, ?_, ?_⟩
        · simpa [Surroundings.serve] using h.numbers
        · simpa [Surroundings.serve] using h.shows
        · simpa [Surroundings.serve] using h.previews
      · exact .inl (.inl rfl)
  polled := fun hAbort _ => .inl (.inl hAbort)
  poll n loop next run _ := by
    refine request_triple fun s session h => ?_
    rcases h with (hAbort | hStop) | ⟨calls, old, reported, h⟩
    · exact .inl (.inl hAbort)
    · exact .inl (.inr (Surroundings.stopSeen_succ hStop))
    · cases hSeen : env.stopSeen session.checks with
      | true => exact .inl (.inr (Surroundings.stopSeen_succ hSeen))
      | false =>
        refine .inr ⟨calls, old, reported, ?_⟩
        have hAnswer : (env.serve session .stopRequested).1 = false := hSeen
        rw [hAnswer]
        exact ⟨h.running, h.numbers, h.called, h.outcome, h.reports, h.shows, h.previews⟩
  given := fun _ _ hFalse => nomatch hFalse
  returned n loop code segments language run hRun := by
    refine request_triple fun s session h => ?_
    cases hSeen : env.stopSeen session.checks with
    | true =>
      have hAnswer : (env.serve session .stopRequested).1 = true := hSeen
      rw [hAnswer]
      exact fun hFalse => nomatch hFalse
    | false =>
      have hAnswer : (env.serve session .stopRequested).1 = false := hSeen
      rw [hAnswer]
      simp only [Bool.false_eq_true, if_false]
      split
      · trivial
      · rcases h with (hAbort | hStop) | ⟨calls, old, reported, h⟩
        · rw [hRun] at hAbort
          cases hAbort
        · rw [hSeen] at hStop
          cases hStop
        · have hShows := h.shows
          have hLength : segments.length = reported := h.reports
          rw [List.map_nil, List.append_nil, ← hLength] at hShows
          refine ⟨calls, old, session.finals.length, 0, ?_, h.numbers, h.called, ?_, hShows,
            h.previews, rfl, ?_⟩
          · exact (setLanguage_aborted loop.result language).trans h.running
          · exact congrArg Prod.snd h.outcome
          · rw [Nat.zero_add]
            exact length_readSegments run segments (cutWindow_finalize_le _ _ _ _)
  emit n loop segments final rest result := by
    refine request_triple fun s session h => ?_
    split
    · obtain ⟨calls, old, base, sent, h⟩ := h
      refine ⟨calls, old, base, sent + 1, h.running, h.numbers, h.called, h.outcome, ?_, h.previews,
        ?_, ?_⟩
      · simpa [Surroundings.serve] using h.shows
      · have hFinals := h.finals
        simp [Surroundings.serve, hFinals]
        exact Nat.add_assoc base sent 1
      · have hLeft := h.left
        rw [List.length_cons] at hLeft
        exact (Nat.succ_add_eq_add_succ sent rest.length).trans hLeft
    · exact fun hFalse => nomatch hFalse
  emitted := by
    rintro n loop segments result s session ⟨calls, old, base, sent, h⟩
    refine ⟨h.running, ?_⟩
    split
    · rename_i hSource
      exact fun _ => h.last hSource
    · rename_i hSource
      exact h.next (Bool.eq_false_iff.mpr hSource)

end Run

/-- In a run that completes, every partial is replaced by a final if every segment that was kept
back was followed by a window that decoded one, and only then while the indexes are distinct. -/
theorem partials_superseded (env : Surroundings) (options : EngineOptions) (rounds : Nat)
    (result : EngineResult) (hReports : ∀ call buffer, (env.whisper call buffer).ReportsOnce 0)
    (hCompleted : (env.transcribe options rounds).1 = .ok result) (hRunning : result.aborted = false) :
    (Resumed (env.windows (env.transcribe options rounds).2.calls) →
      Superseded (env.transcribe options rounds).2) ∧
      ((env.transcribe options rounds).2.finals.length < 2 ^ 32 →
        Superseded (env.transcribe options rounds).2 →
          Resumed (env.windows (env.transcribe options rounds).2.calls)) := by
  have hNumbered := (env.transcribe_numbered options rounds).1
  have hStart : PreviewHead env startLoop env.start := by
    refine ⟨rfl, rfl, ⟨fun _ hFalse => (nomatch hFalse), fun hFalse => absurd hFalse pending_nil⟩, ?_⟩
    intro before last hSplit
    cases before <;> cases hSplit
  have hPreviews := (Surroundings.transcribe_meets
    ((previewPlan env options hReports).run_triple rounds) hStart).1 result hCompleted hRunning
  generalize (env.transcribe options rounds).2 = session at hNumbered hPreviews ⊢
  constructor
  · intro hResumed preview hPreview
    obtain ⟨i, hIndex, hLess | ⟨-, hNot⟩⟩ :=
      hPreviews.index _ (List.mem_map.mpr ⟨preview, hPreview, rfl⟩)
    · exact ⟨session.finals[i], List.getElem_mem hLess, (hNumbered.get hLess).1.trans hIndex.symm⟩
    · exact absurd hResumed hNot
  · intro hFew hSuperseded
    by_contra hNot
    obtain ⟨preview, hPreview, hIndex⟩ := List.mem_map.mp (hPreviews.pending hNot)
    obtain ⟨final, hFinal, hSame⟩ := hSuperseded preview hPreview
    obtain ⟨k, hk, rfl⟩ := List.mem_iff_getElem.mp hFinal
    have hNumber := congrArg UInt32.toNat (hNumbered.get hk).1
    rw [hSame, hIndex, UInt32.toNat_ofNat', UInt32.toNat_ofNat', Nat.mod_eq_of_lt hFew,
      Nat.mod_eq_of_lt (Nat.lt_trans hk hFew)] at hNumber
    omega

theorem ok_of_toOption {ε α : Type} {x : Except ε α} {a : α} (h : x.toOption = some a) :
    x = .ok a := by
  cases x with
  | error _ => cases h
  | ok b => exact congrArg Except.ok (Option.some.inj h)

theorem partials_superseded_short :
    ∃ result, (shortTalk.transcribe talkOptions 4).1 = .ok result ∧ result.aborted = false ∧
      (Resumed (shortTalk.windows (shortTalk.transcribe talkOptions 4).2.calls) ↔
        Superseded (shortTalk.transcribe talkOptions 4).2) := by
  have hDone : (shortTalk.transcribe talkOptions 4).1.toOption.map EngineResult.aborted =
      some false := by decide +kernel
  obtain ⟨result, hResult, hRunning⟩ := Option.map_eq_some_iff.mp hDone
  have hOk := ok_of_toOption hResult
  obtain ⟨hEnough, hOnly⟩ := partials_superseded shortTalk talkOptions 4 result
    (fun _ _ => ⟨rfl, rfl⟩) hOk hRunning
  exact ⟨result, hOk, hRunning, hEnough, hOnly (by decide +kernel)⟩

/-- A little more than a second of audio. The first window decodes two segments, of which the
second starts just before its end; the rest decodes to nothing. -/
def breakingTalk : Surroundings where
  pcm := List.replicate 16001 0
  readSize _ := 16000
  stopFrom := none
  sinkOk _ := true
  whisper call _ :=
    let segments := if call = 0 then [⟨0, 50, ascii "hello", false, []⟩, ⟨99, 100, ascii "y", false, []⟩]
      else []
    .newSegment segments segments.length (.returns 0 segments (some (ascii "en")))

theorem breakingTalk_emits :
    (breakingTalk.transcribe talkOptions 5).1.toOption.map EngineResult.aborted = some false ∧
    (breakingTalk.transcribe talkOptions 5).2.emitted.map (fun entry => (entry.1.index, entry.2)) =
      [(0, false), (1, false), (0, true)] := by decide +kernel

/-- The segment kept back is decoded again to nothing: its partial is never replaced. -/
theorem partial_never_finalized :
    ¬ ∀ (env : Surroundings) (options : EngineOptions) (rounds : Nat) (result : EngineResult),
      (∀ call buffer, (env.whisper call buffer).ReportsOnce 0) →
      (env.transcribe options rounds).1 = .ok result → result.aborted = false →
      Superseded (env.transcribe options rounds).2 := by
  intro h
  obtain ⟨hDone, hEmitted⟩ := breakingTalk_emits
  obtain ⟨result, hResult, hRunning⟩ := Option.map_eq_some_iff.mp hDone
  have hSuperseded := h breakingTalk talkOptions 5 result
    (fun _ _ => ⟨(Nat.zero_add _).symm, rfl⟩) (ok_of_toOption hResult) hRunning
  generalize (breakingTalk.transcribe talkOptions 5).2 = session at hEmitted hSuperseded
  obtain ⟨left, reads, checks, calls, emitted⟩ := session
  obtain ⟨⟨first, _⟩, rest, rfl, hFirst, hRest⟩ := List.map_eq_cons_iff.mp hEmitted
  obtain ⟨⟨second, _⟩, rest, rfl, hSecond, hRest⟩ := List.map_eq_cons_iff.mp hRest
  obtain ⟨⟨third, _⟩, rest, rfl, hThird, hRest⟩ := List.map_eq_cons_iff.mp hRest
  obtain rfl := List.map_eq_nil_iff.mp hRest
  obtain ⟨-, rfl⟩ := Prod.mk.inj hFirst
  obtain ⟨hIndex, rfl⟩ := Prod.mk.inj hSecond
  obtain ⟨hFinal, rfl⟩ := Prod.mk.inj hThird
  obtain ⟨final, hListed, hSame⟩ := hSuperseded second (by simp [Session.partials])
  obtain rfl : final = third := by simpa [Session.finals] using hListed
  have hEqual : (0 : UInt32) = 1 := hFinal.symm.trans (hSame.trans hIndex)
  exact absurd hEqual (by decide)

end GrpcAsr.Asr
