import Mathlib.Data.List.Induction
import GrpcAsr.Asr.Superseded

/-!
# Start times of the finals

The finals of a run start where its windows put them: the decoder's times are added to the
base of their window, which advances by what every window cut off. A window that is not the
last and keeps nothing back may hold a segment that starts past its end. The starts never go
backward exactly if the next segments decoded start no earlier than such a segment.
-/

namespace GrpcAsr.Asr

set_option autoImplicit false

open Interaction Routine Transcriber
open Media (Bytes ascii)

def windowStarts (base : UInt64) (segments : List WhisperSegment) : List UInt64 :=
  segments.map fun segment => base + centisecToMs segment.t0

/-- The cut of a window that is not the last. -/
def Window.cut (window : Window) : WindowCut :=
  cutWindow window.segments.length false (windowMs window.buffer) (lastStartMs window.segments)

structure Schedule where
  base : UInt64
  starts : List UInt64

def Schedule.pass (schedule : Schedule) (window : Window) : Schedule :=
  ⟨schedule.base + window.cut.resumeMs,
    schedule.starts ++ (windowStarts schedule.base window.segments).take window.cut.finalize⟩

/-- The base and the starts that windows leave behind, none of them the last. -/
def schedule (windows : List Window) : Schedule := windows.foldl Schedule.pass ⟨0, []⟩

/-- The starts of a run's finals when its last window is finalized whole. -/
def dueStarts (windows : List Window) : List UInt64 :=
  match windows.getLast? with
  | none => []
  | some last =>
    (schedule windows.dropLast).starts ++
      windowStarts (schedule windows.dropLast).base last.segments

theorem schedule_snoc (windows : List Window) (window : Window) :
    schedule (windows ++ [window]) = (schedule windows).pass window := List.foldl_append

theorem dueStarts_snoc (windows : List Window) (last : Window) :
    dueStarts (windows ++ [last]) =
      (schedule windows).starts ++ windowStarts (schedule windows).base last.segments := by
  rw [dueStarts, List.getLast?_concat, List.dropLast_concat]

theorem readSegments_starts {options : EngineOptions} (run : RunState)
    (segments : List WhisperSegment) (stop : Nat) :
    (readSegments options run segments 0 stop).map EngineSegment.startMs =
      (windowStarts run.windowBaseMs segments).take stop := by
  have hStart : (EngineSegment.startMs ∘ fun entry : WhisperSegment × Nat =>
      readSegment options run segments entry.2 entry.1) =
      (fun segment => run.windowBaseMs + centisecToMs segment.t0) ∘ Prod.fst := rfl
  rw [readSegments_zero, List.map_map, hStart, ← List.map_map, List.map_take, List.zipIdx_map_fst,
    List.map_take, windowStarts]

theorem schedule_starts_due (windows : List Window) :
    (schedule windows).starts <+: dueStarts windows := by
  rcases List.eq_nil_or_concat windows with rfl | ⟨before, last, rfl⟩
  · exact List.prefix_rfl
  · rw [List.concat_eq_append, schedule_snoc, dueStarts_snoc]
    apply (List.prefix_append_right_inj _).mpr
    exact List.take_prefix _ _

/-- Once the last window kept nothing back, its starts are all out. -/
theorem schedule_starts_eq {windows : List Window}
    (h : ∀ before last, windows = before ++ [last] → ¬ last.HoldsBack) :
    (schedule windows).starts = dueStarts windows := by
  rcases List.eq_nil_or_concat windows with rfl | ⟨before, last, rfl⟩
  · rfl
  · rw [List.concat_eq_append] at h ⊢
    have hWhole : last.segments.length ≤ last.cut.finalize := Nat.le_of_not_lt (h before last rfl)
    rw [schedule_snoc, dueStarts_snoc, Schedule.pass, List.take_of_length_le]
    rwa [windowStarts, List.length_map]

section Run

variable (env : Surroundings)

structure StartHead (loop : Loop) (session : Session) : Prop where
  running : loop.result.aborted = false
  base : loop.run.windowBaseMs = (schedule (env.windows session.calls)).base
  starts : session.finals.map EngineSegment.startMs = (schedule (env.windows session.calls)).starts
  carried : ∀ before last, env.windows session.calls = before ++ [last] → last.HoldsBack →
    loop.buffer ≠ []

structure StartCall (loop : Loop) (run : RunState) (session : Session) (calls : List WindowCall) :
    Prop where
  running : loop.result.aborted = false
  base : run.windowBaseMs = (schedule (env.windows calls)).base
  called : ∃ call : WindowCall, session.calls = calls ++ [call] ∧ call.buffer = loop.buffer
  starts : session.finals.map EngineSegment.startMs = (schedule (env.windows calls)).starts

structure StartEmit (loop : Loop) (segments : List WhisperSegment) (rest : List EngineSegment)
    (result : EngineResult) (session : Session) (calls : List WindowCall) : Prop where
  running : result.aborted = false
  base : loop.run.windowBaseMs = (schedule (env.windows calls)).base
  called : ∃ call : WindowCall, session.calls = calls ++ [call] ∧ call.buffer = loop.buffer
  outcome : segments = (env.whisper calls.length loop.buffer).outcome.2
  starts : session.finals.map EngineSegment.startMs ++ rest.map EngineSegment.startMs =
    (schedule (env.windows calls)).starts ++
      (windowStarts (schedule (env.windows calls)).base segments).take (loop.cut segments).finalize

variable {env}

theorem StartHead.due {loop : Loop} {session : Session} (h : StartHead env loop session) :
    session.finals.map EngineSegment.startMs <+: dueStarts (env.windows session.calls) := by
  rw [h.starts]
  exact schedule_starts_due _

theorem StartCall.due {loop : Loop} {run : RunState} {session : Session} {calls : List WindowCall}
    (h : StartCall env loop run session calls) :
    session.finals.map EngineSegment.startMs <+: dueStarts (env.windows session.calls) := by
  obtain ⟨call, hCalls, -⟩ := h.called
  rw [h.starts, hCalls, windows_snoc, dueStarts_snoc]
  exact List.prefix_append _ _

section Emit

variable {loop : Loop} {segments : List WhisperSegment} {rest : List EngineSegment}
  {result : EngineResult} {session : Session} {calls : List WindowCall}

theorem StartEmit.windows (h : StartEmit env loop segments rest result session calls) :
    env.windows session.calls = env.windows calls ++ [⟨loop.buffer, segments⟩] := by
  obtain ⟨call, hCalls, hBuffer⟩ := h.called
  rw [hCalls, windows_snoc, hBuffer, h.outcome]

theorem StartEmit.due (h : StartEmit env loop segments rest result session calls) :
    session.finals.map EngineSegment.startMs ++ rest.map EngineSegment.startMs <+:
      dueStarts (env.windows session.calls) := by
  rw [h.starts, h.windows, dueStarts_snoc]
  apply (List.prefix_append_right_inj _).mpr
  exact List.take_prefix _ _

theorem StartEmit.last (h : StartEmit env loop segments [] result session calls)
    (hSource : loop.sourceDone = true) :
    session.finals.map EngineSegment.startMs = dueStarts (env.windows session.calls) := by
  have hStarts := h.starts
  have hAll : (loop.cut segments).finalize = segments.length := by
    by_contra hNot
    have hLess : (loop.cut segments).finalize < segments.length :=
      Nat.lt_of_le_of_ne (cutWindow_finalize_le _ _ _ _) hNot
    have hOpen := (cutWindow_held hLess).1
    rw [hSource] at hOpen
    cases hOpen
  have hLength : segments.length = (windowStarts (schedule (env.windows calls)).base segments).length := by
    rw [windowStarts, List.length_map]
  rw [List.map_nil, List.append_nil, hAll, hLength, List.take_length] at hStarts
  rw [hStarts, h.windows, dueStarts_snoc]

theorem StartEmit.next {options : EngineOptions}
    (h : StartEmit env loop segments [] result session calls) (hSource : loop.sourceDone = false) :
    StartHead env (carry loop (loop.finals options segments) (loop.cut segments) result) session := by
  have hStarts := h.starts
  have hCut : loop.cut segments = (⟨loop.buffer, segments⟩ : Window).cut := by
    rw [Loop.cut, hSource]
    rfl
  rw [List.map_nil, List.append_nil] at hStarts
  constructor
  · exact h.running
  · rw [h.windows, schedule_snoc, carry, h.base, hCut]
    rfl
  · rw [h.windows, schedule_snoc, hStarts, hCut]
    rfl
  · intro before last hWindows hHeld
    rw [h.windows] at hWindows
    obtain ⟨-, hLast⟩ := List.append_inj' hWindows rfl
    obtain rfl := List.singleton_inj.mp hLast
    exact carry_ne_nil hSource hHeld

end Emit

/-- The starts of the finals are those the windows so far call for; when the run completes
none is missing. -/
def startPlan (env : Surroundings) (options : EngineOptions) :
    Plan (Contract.serving env.serve) engineHost options fun _ _ session =>
      session.finals.map EngineSegment.startMs <+: dueStarts (env.windows session.calls) where
  head _ loop _ session := StartHead env loop session
  ready _ loop _ session := StartHead env loop session
  busy _ loop _ whisper run _ session :=
    ∃ calls, StartCall env loop run session calls ∧
      ((run.abort = true ∨ env.stopSeen session.checks = true) ∨
        whisper.outcome = (env.whisper calls.length loop.buffer).outcome)
  emitting _ loop segments rest result _ session :=
    ∃ calls, StartEmit env loop segments rest result session calls
  failing _ session :=
    session.finals.map EngineSegment.startMs <+: dueStarts (env.windows session.calls)
  done result _ session :=
    session.finals.map EngineSegment.startMs <+: dueStarts (env.windows session.calls) ∧
      (result.aborted = false →
        session.finals.map EngineSegment.startMs = dueStarts (env.windows session.calls))
  wait _ := Triple.throw _ fun _ _ h => h.due
  throw _ := Triple.throw _ fun _ _ h => h
  aborted := fun _ h => ⟨h.due, fun hFalse => nomatch hFalse⟩
  stop n loop := by
    apply request_triple
    intro s session h
    split
    · exact ⟨h.due, fun hFalse => nomatch hFalse⟩
    · exact ⟨h.running, h.base, h.starts, h.carried⟩
  finished := by
    intro n loop s session h _ hNil
    refine ⟨h.due, fun _ => ?_⟩
    rw [h.starts]
    apply schedule_starts_eq
    intro before last hWindows hHeld
    exact h.carried before last hWindows hHeld hNil
  read n loop _ := by
    apply request_triple
    intro s session h
    split
    · exact ⟨h.running, h.base, h.starts, h.carried⟩
    · split
      · exact h.due
      · refine ⟨h.running, h.base, h.starts, fun before last hWindows hHeld hNil => ?_⟩
        exact h.carried before last hWindows hHeld (List.append_eq_nil_iff.mp hNil).1
  call n loop _ _ := by
    apply request_triple
    intro s session h
    exact ⟨session.calls, ⟨h.running, h.base, ⟨_, rfl, rfl⟩, h.starts⟩, .inr rfl⟩
  report := by
    rintro n loop segments count next run s session ⟨calls, h, hDoomed | hOutcome⟩
    · exact ⟨calls, h, .inl hDoomed⟩
    · exact ⟨calls, h, .inr hOutcome⟩
  sink n loop segment segments whisper run := by
    apply request_triple
    rintro s session ⟨calls, h, hRest⟩
    have hStarts : (env.serve session (.sink segment false)).2.finals.map EngineSegment.startMs =
        (schedule (env.windows calls)).starts := by
      simpa [Surroundings.serve] using h.starts
    refine ⟨calls, ?_, ?_⟩
    · split
      · exact ⟨h.running, h.base, h.called, hStarts⟩
      · exact ⟨h.running, h.base, h.called, hStarts⟩
    · rcases hRest with (hAbort | hStop) | hOutcome
      · apply Or.inl ∘ Or.inl
        split
        · exact hAbort
        · rfl
      · exact .inl (.inr hStop)
      · exact .inr hOutcome
  polled := by
    rintro n loop next run s session hAbort ⟨calls, h, -⟩
    exact ⟨calls, h, .inl (.inl hAbort)⟩
  poll n loop next run _ := by
    apply request_triple
    rintro s session ⟨calls, h, hRest⟩
    refine ⟨calls, ⟨h.running, h.base, h.called, h.starts⟩, ?_⟩
    rcases hRest with (hAbort | hStop) | hOutcome
    · exact .inl (.inl hAbort)
    · exact .inl (.inr (Surroundings.stopSeen_succ hStop))
    · cases hSeen : env.stopSeen session.checks with
      | true => exact .inl (.inr (Surroundings.stopSeen_succ hSeen))
      | false =>
        have hAnswer : (env.serve session .stopRequested).1 = false := hSeen
        rw [hAnswer]
        exact .inr hOutcome
  given := by
    rintro n loop code segments language run s session - ⟨calls, h, -⟩
    exact ⟨h.due, fun hFalse => nomatch hFalse⟩
  returned n loop code segments language run hRun := by
    apply request_triple
    rintro s session ⟨calls, h, hRest⟩
    cases hSeen : env.stopSeen session.checks with
    | true =>
      have hAnswer : (env.serve session .stopRequested).1 = true := hSeen
      rw [hAnswer]
      exact ⟨h.due, fun hFalse => nomatch hFalse⟩
    | false =>
      have hAnswer : (env.serve session .stopRequested).1 = false := hSeen
      rw [hAnswer]
      simp only [Bool.false_eq_true, if_false]
      split
      · exact h.due
      · rcases hRest with (hAbort | hStop) | hOutcome
        · rw [hRun] at hAbort
          cases hAbort
        · rw [hSeen] at hStop
          cases hStop
        · refine ⟨calls, ?_, h.base, h.called, congrArg Prod.snd hOutcome, ?_⟩
          · exact (setLanguage_aborted loop.result language).trans h.running
          · have hStarts := h.starts
            rw [Loop.finals, readSegments_starts, h.base]
            exact congrArg (· ++ _) hStarts
  emit n loop segments final rest result := by
    apply request_triple
    rintro s session ⟨calls, h⟩
    have hStarts := h.starts
    have hSent : (env.serve session (.sink final true)).2.finals.map EngineSegment.startMs =
        session.finals.map EngineSegment.startMs ++ [final.startMs] := by
      simp [Surroundings.serve]
    split
    · refine ⟨calls, h.running, h.base, h.called, h.outcome, ?_⟩
      rw [hSent, List.append_assoc]
      exact hStarts
    · refine ⟨?_, fun hFalse => nomatch hFalse⟩
      rw [hSent]
      apply List.IsPrefix.trans _ h.due
      rw [List.map_cons]
      exact ⟨rest.map EngineSegment.startMs, by simp⟩
  emitted := by
    rintro n loop segments result s session ⟨calls, h⟩
    refine ⟨h.running, ?_⟩
    split
    · rename_i hSource
      have hAll := h.last hSource
      exact ⟨hAll ▸ List.prefix_rfl, fun _ => hAll⟩
    · rename_i hSource
      exact h.next (Bool.eq_false_iff.mpr hSource)

/-- The finals of any run start as its windows call for, from the first on. -/
theorem transcribe_starts (env : Surroundings) (options : EngineOptions) (rounds : Nat) :
    (env.transcribe options rounds).2.finals.map EngineSegment.startMs <+:
      dueStarts (env.windows (env.transcribe options rounds).2.calls) ∧
    ∀ result, (env.transcribe options rounds).1 = .ok result → result.aborted = false →
      (env.transcribe options rounds).2.finals.map EngineSegment.startMs =
        dueStarts (env.windows (env.transcribe options rounds).2.calls) := by
  have hStart : StartHead env startLoop env.start := by
    refine ⟨rfl, rfl, rfl, ?_⟩
    intro before last hSplit
    cases before <;> cases hSplit
  obtain ⟨hOk, hError⟩ :=
    Surroundings.transcribe_meets ((startPlan env options).run_triple rounds) hStart
  constructor
  · cases hResult : (env.transcribe options rounds).1 with
    | ok result => exact (hOk result hResult).1
    | error error => exact hError error hResult
  · intro result hResult hRunning
    exact (hOk result hResult).2 hRunning

end Run

/-- Start times that are not negative and never go backward. -/
def StartsInOrder (segments : List WhisperSegment) : Prop :=
  (∀ segment ∈ segments, 0 ≤ segment.t0) ∧ segments.Pairwise fun a b => a.t0 ≤ b.t0

def Surroundings.Orderly (env : Surroundings) : Prop :=
  ∀ call buffer, StartsInOrder (env.whisper call buffer).outcome.2

def WhisperSegment.offsetMs (segment : WhisperSegment) : Nat := segment.t0.toNatClampNeg * 10

namespace Window

def lengthMs (window : Window) : Nat := (windowMs window.buffer).toNat

def lastOffset (window : Window) : Nat :=
  (window.segments.getLast?.map WhisperSegment.offsetMs).getD 0

/-- How far past the window's end its last segment starts. -/
def overrun (window : Window) : Nat := window.lastOffset - window.lengthMs

def resume (window : Window) : Nat := window.cut.resumeMs.toNat

end Window

/-- Where a window starts that follows others, in milliseconds. -/
def origin (windows : List Window) : Nat := (windows.map Window.resume).sum

/-- Every start of the run fits in 64 bits. -/
def StartsFit (windows : List Window) : Prop :=
  ∀ before window after, windows = before ++ window :: after →
    ∀ segment ∈ window.segments, origin before + segment.offsetMs < 2 ^ 64

def Silent (windows : List Window) : Prop := ∀ window ∈ windows, window.segments = []

/-- After each window, the next segment decoded starts no earlier than the window's last, if it
is among the first finals: what a call that failed or was stopped decoded is not read. -/
def NoneOvertaken (windows : List Window) (finals : Nat) : Prop :=
  ∀ before window lull next after first rest,
    windows = before ++ window :: (lull ++ next :: after) → Silent lull →
    next.segments = first :: rest →
    (schedule (before ++ window :: lull)).starts.length < finals →
    window.overrun ≤ (lull.map Window.lengthMs).sum + first.offsetMs

/-- The starts of the finals never go backward. -/
def FinalsOrdered (session : Session) : Prop :=
  (session.finals.map EngineSegment.startMs).Pairwise (· ≤ ·)

section Times

theorem centisecToMs_toNat {t : Int64} (h : 0 ≤ t) :
    (centisecToMs t).toNat = t.toNatClampNeg * 10 % 2 ^ 64 := by
  rw [centisecToMs, UInt64.toNat_mul, Int64.toNat_toUInt64_of_le h]
  rfl

theorem offsetMs_le {a b : WhisperSegment} (h : a.t0 ≤ b.t0) : a.offsetMs ≤ b.offsetMs := by
  have hInt : a.t0.toInt ≤ b.t0.toInt := Int64.le_iff_toInt_le.mp h
  simp only [WhisperSegment.offsetMs, Int64.toNatClampNeg]
  omega

theorem schedule_base (windows : List Window) :
    (schedule windows).base = UInt64.ofNat (origin windows) := by
  induction windows using List.reverseRecOn with
  | nil => rfl
  | append_singleton windows window ih =>
    rw [schedule_snoc, Schedule.pass, ih, origin, origin, List.map_append, List.sum_append,
      UInt64.ofNat_add]
    simp [Window.resume]

theorem origin_cons (window : Window) (windows : List Window) :
    origin (window :: windows) = window.resume + origin windows := List.sum_cons

theorem origin_append (before after : List Window) :
    origin (before ++ after) = origin before + origin after := by
  simp [origin]

section Window

variable {window : Window}

theorem resume_silent (h : window.segments = []) : window.resume = window.lengthMs := by
  rw [Window.resume, Window.cut, h]
  rfl

theorem origin_silent {windows : List Window} (h : Silent windows) :
    origin windows = (windows.map Window.lengthMs).sum := by
  have hSame : windows.map Window.resume = windows.map Window.lengthMs :=
    List.map_congr_left fun window hWindow => resume_silent (h window hWindow)
  rw [origin, hSame]

theorem lastOffset_eq {last : WhisperSegment} (hLast : window.segments.getLast? = some last) :
    window.lastOffset = last.offsetMs := by
  rw [Window.lastOffset, hLast]
  rfl

theorem offsetMs_le_last (hOrder : StartsInOrder window.segments) {segment : WhisperSegment}
    (hSegment : segment ∈ window.segments) : segment.offsetMs ≤ window.lastOffset := by
  obtain ⟨last, hLast⟩ : ∃ last, window.segments.getLast? = some last :=
    Option.isSome_iff_exists.mp (List.getLast?_isSome.mpr (List.ne_nil_of_mem hSegment))
  rw [lastOffset_eq hLast]
  obtain ⟨front, hFront⟩ := List.getLast?_eq_some_iff.mp hLast
  have hPairs := hOrder.2
  rw [hFront, List.pairwise_append] at hPairs
  rw [hFront] at hSegment
  rcases List.mem_append.mp hSegment with hOld | hSame
  · exact offsetMs_le (hPairs.2.2 segment hOld last List.mem_cons_self)
  · rw [List.mem_singleton.mp hSame]

/-- A window kept open at its last segment resumes there. -/
theorem resume_held (hOrder : StartsInOrder window.segments) (hFit : window.lastOffset < 2 ^ 64)
    (hHeld : window.HoldsBack) :
    window.resume = window.lastOffset ∧ window.lastOffset < window.lengthMs := by
  obtain ⟨-, hTwo, hInside, hCut⟩ := cutWindow_held hHeld
  have hSome : window.segments ≠ [] := by
    intro hNil
    rw [hNil] at hTwo
    cases hTwo
  obtain ⟨last, hLast⟩ := Option.isSome_iff_exists.mp (List.getLast?_isSome.mpr hSome)
  have hStart : (lastStartMs window.segments).toNat = window.lastOffset := by
    rw [lastOffset_eq hLast] at hFit ⊢
    rw [lastStartMs, if_pos hTwo, hLast,
      centisecToMs_toNat (hOrder.1 last (List.mem_of_getLast? hLast))]
    exact Nat.mod_eq_of_lt hFit
  constructor
  · rw [Window.resume, Window.cut, hCut]
    exact hStart
  · rw [← hStart]
    exact UInt64.lt_iff_toNat_lt.mp hInside

theorem resume_whole (h : ¬ window.HoldsBack) : window.resume = window.lengthMs := by
  have hWhole : ¬ (cutWindow window.segments.length false (windowMs window.buffer)
    (lastStartMs window.segments)).finalize < window.segments.length := h
  rw [Window.resume, Window.cut]
  unfold cutWindow at hWhole ⊢
  split
  · rfl
  · rename_i hSome
    rw [if_neg hSome] at hWhole
    split
    · rename_i hHeld
      rw [if_pos hHeld] at hWhole
      dsimp only at hWhole
      omega
    · rfl

theorem lastOffset_le (hOrder : StartsInOrder window.segments) (hFit : window.lastOffset < 2 ^ 64) :
    window.lastOffset ≤ window.resume + window.overrun := by
  by_cases hHeld : window.HoldsBack
  · rw [(resume_held hOrder hFit hHeld).1]
    exact Nat.le_add_right _ _
  · rw [resume_whole hHeld, Window.overrun]
    omega

theorem overrun_held (hOrder : StartsInOrder window.segments) (hFit : window.lastOffset < 2 ^ 64)
    (hHeld : window.HoldsBack) : window.overrun = 0 := by
  have hInside := (resume_held hOrder hFit hHeld).2
  rw [Window.overrun]
  omega

end Window

theorem StartsFit.init {windows : List Window} {last : Window} (h : StartsFit (windows ++ [last])) :
    StartsFit windows := by
  intro before window after hSplit
  exact h before window (after ++ [last]) (by rw [hSplit, List.append_assoc, List.cons_append])

theorem NoneOvertaken.init {windows : List Window} {last : Window} {finals : Nat}
    (h : NoneOvertaken (windows ++ [last]) finals) : NoneOvertaken windows finals := by
  intro before window lull next after first rest hSplit
  exact h before window lull next (after ++ [last]) first rest (by rw [hSplit]; simp)

theorem StartsFit.last {windows : List Window} {window : Window} {after : List Window}
    (h : StartsFit (windows ++ window :: after)) : window.lastOffset < 2 ^ 64 := by
  rw [Window.lastOffset]
  cases hLast : window.segments.getLast? with
  | none => decide
  | some last =>
    have hFit := h windows window after rfl last (List.mem_of_getLast? hLast)
    rw [Option.map_some, Option.getD_some]
    omega

/-- Under the bound a start is the sum it stands for. -/
theorem start_toNat {windows after : List Window} {window : Window} {segment : WhisperSegment}
    (hFit : StartsFit (windows ++ window :: after)) (hOrder : StartsInOrder window.segments)
    (hSegment : segment ∈ window.segments) :
    ((schedule windows).base + centisecToMs segment.t0).toNat = origin windows + segment.offsetMs := by
  have hLess := hFit windows window after rfl segment hSegment
  rw [UInt64.toNat_add, schedule_base, centisecToMs_toNat (hOrder.1 segment hSegment),
    UInt64.toNat_ofNat']
  rw [WhisperSegment.offsetMs] at hLess ⊢
  omega

/-- The position is covered by a window that only silent ones follow. -/
def Reached (windows : List Window) (position : Nat) : Prop :=
  ∃ before window lull, windows = before ++ window :: lull ∧ Silent lull ∧
    position ≤ origin before + window.resume + window.overrun

theorem Reached.silent {windows : List Window} {position : Nat} {window : Window}
    (h : Reached windows position) (hSilent : window.segments = []) :
    Reached (windows ++ [window]) position := by
  obtain ⟨before, last, lull, rfl, hLull, hLe⟩ := h
  refine ⟨before, last, lull ++ [window], by simp, ?_, hLe⟩
  intro other hOther
  rcases List.mem_append.mp hOther with hOld | hNew
  · exact hLull other hOld
  · rw [List.mem_singleton.mp hNew]
    exact hSilent

theorem offsetMs_first_le {first segment : WhisperSegment} {rest : List WhisperSegment}
    (hOrder : StartsInOrder (first :: rest)) (hSegment : segment ∈ first :: rest) :
    first.offsetMs ≤ segment.offsetMs := by
  rcases List.mem_cons.mp hSegment with rfl | hLater
  · exact Nat.le_refl _
  · exact offsetMs_le (List.rel_of_pairwise_cons hOrder.2 hLater)

/-- What was reached before a window lies before all its starts. -/
theorem Reached.le_next {windows after : List Window} {position finals : Nat} {next : Window}
    (h : Reached windows position) (hNone : NoneOvertaken (windows ++ next :: after) finals)
    (hRead : (schedule windows).starts.length < finals) (hOrder : StartsInOrder next.segments)
    {segment : WhisperSegment} (hSegment : segment ∈ next.segments) :
    position ≤ origin windows + segment.offsetMs := by
  obtain ⟨before, window, lull, rfl, hLull, hLe⟩ := h
  obtain ⟨first, rest, hNext⟩ := List.exists_cons_of_ne_nil (List.ne_nil_of_mem hSegment)
  have hOverrun := hNone before window lull next after first rest (by simp) hLull hNext hRead
  rw [hNext] at hOrder hSegment
  have hFirst := offsetMs_first_le hOrder hSegment
  rw [origin_append, origin_cons, origin_silent hLull]
  omega

theorem schedule_starts_append (windows more : List Window) :
    (schedule windows).starts <+: (schedule (windows ++ more)).starts := by
  induction more using List.reverseRecOn with
  | nil => exact ⟨[], by rw [List.append_nil, List.append_nil]⟩
  | append_singleton more window ih =>
    rw [← List.append_assoc, schedule_snoc]
    exact ih.trans (List.prefix_append _ _)

theorem schedule_starts_dropLast (windows : List Window) :
    (schedule windows.dropLast).starts <+: (schedule windows).starts := by
  obtain ⟨after, hWindows⟩ := List.dropLast_prefix windows
  have hMore := schedule_starts_append windows.dropLast after
  rwa [hWindows] at hMore

theorem schedule_due {windows : List Window} {finals : Nat}
    (hOrder : ∀ window ∈ windows, StartsInOrder window.segments) (hFit : StartsFit windows)
    (hNone : NoneOvertaken windows finals)
    (hRead : (schedule windows.dropLast).starts.length < finals) :
    (dueStarts windows).Pairwise (· ≤ ·) ∧
      ∀ start ∈ (schedule windows).starts, Reached windows start.toNat := by
  induction windows using List.reverseRecOn with
  | nil => exact ⟨List.Pairwise.nil, fun _ hFalse => nomatch hFalse⟩
  | append_singleton windows next ih =>
    have hNextOrder := hOrder next (by simp)
    rw [List.dropLast_concat] at hRead
    obtain ⟨hDue, hReached⟩ := ih (fun window hWindow => hOrder window (List.mem_append_left _ hWindow))
      hFit.init hNone.init (Nat.lt_of_le_of_lt (schedule_starts_dropLast windows).length_le hRead)
    have hStart : ∀ segment ∈ next.segments,
        ((schedule windows).base + centisecToMs segment.t0).toNat = origin windows + segment.offsetMs :=
      fun segment hSegment => start_toNat hFit hNextOrder hSegment
    rw [dueStarts_snoc, schedule_snoc]
    constructor
    · rw [List.pairwise_append]
      refine ⟨hDue.sublist (schedule_starts_due windows).sublist, ?_, ?_⟩
      · rw [windowStarts, List.pairwise_map]
        apply hNextOrder.2.imp_of_mem
        intro a b ha hb hLe
        rw [UInt64.le_iff_toNat_le, hStart a ha, hStart b hb]
        exact Nat.add_le_add_left (offsetMs_le hLe) _
      · intro start hOld other hNew
        obtain ⟨segment, hSegment, rfl⟩ := List.mem_map.mp hNew
        rw [UInt64.le_iff_toNat_le, hStart segment hSegment]
        exact (hReached start hOld).le_next hNone hRead hNextOrder hSegment
    · intro start hListed
      by_cases hSilent : next.segments = []
      · rw [Schedule.pass, windowStarts, hSilent, List.map_nil, List.take_nil, List.append_nil] at hListed
        exact (hReached start hListed).silent hSilent
      · refine ⟨windows, next, [], rfl, List.forall_mem_nil _, ?_⟩
        have hLast := lastOffset_le hNextOrder hFit.last
        rcases List.mem_append.mp hListed with hOld | hNew
        · obtain ⟨segment, hSegment⟩ := List.exists_mem_of_ne_nil _ hSilent
          have hLe := (hReached start hOld).le_next hNone hRead hNextOrder hSegment
          have hInside := offsetMs_le_last hNextOrder hSegment
          omega
        · obtain ⟨segment, hSegment, rfl⟩ := List.mem_map.mp (List.mem_of_mem_take hNew)
          have hInside := offsetMs_le_last hNextOrder hSegment
          rw [hStart segment hSegment]
          omega

theorem NoneOvertaken.ordered {windows : List Window} {starts : List UInt64}
    (hOrder : ∀ window ∈ windows, StartsInOrder window.segments) (hFit : StartsFit windows)
    (hPrefix : starts <+: dueStarts windows) (hNone : NoneOvertaken windows starts.length) :
    starts.Pairwise (· ≤ ·) := by
  induction windows using List.reverseRecOn with
  | nil =>
    rw [List.prefix_nil.mp hPrefix]
    exact List.Pairwise.nil
  | append_singleton windows last ih =>
    -- Finals that stop before the last window are finals of the windows before it.
    by_cases hRead : (schedule windows).starts.length < starts.length
    · have hAll := schedule_due hOrder hFit hNone (by rwa [List.dropLast_concat])
      exact hAll.1.sublist hPrefix.sublist
    · rw [dueStarts_snoc] at hPrefix
      have hBefore : starts <+: (schedule windows).starts :=
        List.prefix_of_prefix_length_le hPrefix (List.prefix_append _ _) (Nat.le_of_not_lt hRead)
      exact ih (fun window hWindow => hOrder window (List.mem_append_left _ hWindow)) hFit.init
        (hBefore.trans (schedule_starts_due windows)) hNone.init

theorem cut_finalize_pos {window : Window} (h : window.segments ≠ []) : 0 < window.cut.finalize := by
  have hLength := List.length_pos_iff.mpr h
  by_cases hHeld : window.HoldsBack
  · obtain ⟨-, hTwo, -, hCut⟩ := cutWindow_held hHeld
    rw [Window.cut, hCut]
    dsimp only
    omega
  · exact Nat.lt_of_lt_of_le hLength (Nat.le_of_not_lt hHeld)

/-- The first start of a window is due after those of the windows before it. -/
theorem dueStarts_next (windows after : List Window) {next : Window} {first : WhisperSegment}
    {rest : List WhisperSegment} (hNext : next.segments = first :: rest) :
    (schedule windows).starts ++ [(schedule windows).base + centisecToMs first.t0] <+:
      dueStarts (windows ++ next :: after) := by
  have hStarts : [(schedule windows).base + centisecToMs first.t0] <+:
      windowStarts (schedule windows).base next.segments := by
    rw [windowStarts, hNext, List.map_cons]
    exact ⟨_, rfl⟩
  rcases List.eq_nil_or_concat after with rfl | ⟨front, last, rfl⟩
  · rw [dueStarts_snoc]
    exact (List.prefix_append_right_inj _).mpr hStarts
  · have hPass : (schedule windows).starts ++ [(schedule windows).base + centisecToMs first.t0] <+:
        (schedule (windows ++ [next])).starts := by
      rw [schedule_snoc]
      apply (List.prefix_append_right_inj _).mpr
      apply List.prefix_take_iff.mpr
      exact ⟨hStarts, cut_finalize_pos (by rw [hNext]; exact List.cons_ne_nil _ _)⟩
    have hSplit : windows ++ next :: front.concat last = windows ++ [next] ++ front ++ [last] := by
      simp
    rw [hSplit, dueStarts_snoc]
    exact (hPass.trans (schedule_starts_append _ front)).trans (List.prefix_append _ _)

theorem whole_last_mem {before : List Window} {window : Window} {last : WhisperSegment}
    (hWhole : ¬ window.HoldsBack) (hLast : window.segments.getLast? = some last) :
    (schedule before).base + centisecToMs last.t0 ∈ (schedule (before ++ [window])).starts := by
  rw [schedule_snoc]
  apply List.mem_append_right
  rw [List.take_of_length_le]
  · exact List.mem_map.mpr ⟨last, List.mem_of_getLast? hLast, rfl⟩
  · rw [windowStarts, List.length_map]
    exact Nat.le_of_not_lt hWhole

theorem noneOvertaken_of_due {windows : List Window} {starts : List UInt64}
    (hOrder : ∀ window ∈ windows, StartsInOrder window.segments) (hFit : StartsFit windows)
    (hPrefix : starts <+: dueStarts windows) (hDue : starts.Pairwise (· ≤ ·)) :
    NoneOvertaken windows starts.length := by
  rintro before window lull next after first rest rfl hLull hNext hRead
  have hSplit : before ++ window :: (lull ++ next :: after) =
      before ++ [window] ++ lull ++ next :: after := by simp
  have hWindow := hOrder window (by simp)
  have hNextOrder := hOrder next (by simp)
  by_cases hHeld : window.HoldsBack
  · rw [overrun_held hWindow hFit.last hHeld]
    exact Nat.zero_le _
  · cases hLast : window.segments.getLast? with
    | none =>
      rw [Window.overrun, Window.lastOffset, hLast]
      exact Nat.le_trans (Nat.sub_le _ _) (Nat.zero_le _)
    | some last =>
      rw [hSplit] at hFit hPrefix
      have hUpTo : before ++ window :: lull = before ++ [window] ++ lull := by simp
      rw [hUpTo] at hRead
      have hSent : (schedule (before ++ [window] ++ lull)).starts ++
          [(schedule (before ++ [window] ++ lull)).base + centisecToMs first.t0] <+: starts := by
        apply List.prefix_of_prefix_length_le (dueStarts_next _ after hNext) hPrefix
        rw [List.length_append, List.length_singleton]
        exact hRead
      have hPairs := hDue.sublist hSent.sublist
      have hWhole : (schedule before).base + centisecToMs last.t0 ∈ (schedule (before ++ [window])).starts :=
        whole_last_mem hHeld hLast
      have hMem := (schedule_starts_append _ lull).subset hWhole
      have hLe := (List.pairwise_append.mp hPairs).2.2 _ hMem _ List.mem_cons_self
      have hFirst := start_toNat hFit hNextOrder (by rw [hNext]; exact List.mem_cons_self)
      rw [← hSplit] at hFit
      have hReach := start_toNat hFit hWindow (List.mem_of_getLast? hLast)
      rw [UInt64.le_iff_toNat_le, hReach, hFirst, origin_append, origin_append, origin_silent hLull,
        origin_cons, resume_whole hHeld] at hLe
      rw [Window.overrun, lastOffset_eq hLast]
      have hZero : origin [] = 0 := rfl
      omega

/-- Once every start is out, no window is left out of account. -/
theorem NoneOvertaken.all {windows : List Window}
    (h : NoneOvertaken windows (dueStarts windows).length) (finals : Nat) :
    NoneOvertaken windows finals := by
  rintro before window lull next after first rest rfl hLull hNext -
  apply h before window lull next after first rest rfl hLull hNext
  have hSplit : before ++ window :: (lull ++ next :: after) =
      before ++ window :: lull ++ next :: after := by simp
  have hLength := (dueStarts_next (before ++ window :: lull) after hNext).length_le
  rw [List.length_append, List.length_singleton] at hLength
  rw [hSplit]
  exact hLength

theorem windows_inOrder {env : Surroundings} (h : env.Orderly) (calls : List WindowCall) :
    ∀ window ∈ env.windows calls, StartsInOrder window.segments := by
  intro window hWindow
  obtain ⟨entry, -, rfl⟩ := List.mem_map.mp hWindow
  exact h _ _

end Times

/-- For a decoder that keeps its own windows in order, the finals of a run start in order exactly
if no window's last start is overtaken by the next that is read; a run that completes reads all. -/
theorem final_starts_ordered_iff (env : Surroundings) (options : EngineOptions) (rounds : Nat)
    (hOrderly : env.Orderly)
    (hFit : StartsFit (env.windows (env.transcribe options rounds).2.calls)) :
    (FinalsOrdered (env.transcribe options rounds).2 ↔
      NoneOvertaken (env.windows (env.transcribe options rounds).2.calls)
        (env.transcribe options rounds).2.finals.length) ∧
    ∀ result, (env.transcribe options rounds).1 = .ok result → result.aborted = false →
      (FinalsOrdered (env.transcribe options rounds).2 ↔
        ∀ finals, NoneOvertaken (env.windows (env.transcribe options rounds).2.calls) finals) := by
  obtain ⟨hPrefix, hWhole⟩ := transcribe_starts env options rounds
  have hOrder := windows_inOrder hOrderly (env.transcribe options rounds).2.calls
  have hOrdered : NoneOvertaken (env.windows (env.transcribe options rounds).2.calls)
      (env.transcribe options rounds).2.finals.length →
        FinalsOrdered (env.transcribe options rounds).2 := by
    rw [← List.length_map EngineSegment.startMs]
    exact NoneOvertaken.ordered hOrder hFit hPrefix
  refine ⟨⟨fun hFinals => ?_, hOrdered⟩, fun result hResult hRunning => ⟨fun hFinals => ?_, ?_⟩⟩
  · have hNone := noneOvertaken_of_due hOrder hFit hPrefix hFinals
    rwa [List.length_map] at hNone
  · rw [FinalsOrdered, hWhole result hResult hRunning] at hFinals
    exact (noneOvertaken_of_due hOrder hFit List.prefix_rfl hFinals).all
  · exact fun hNone => hOrdered (hNone _)

theorem startsFit_single {env : Surroundings} {calls : List WindowCall} (hCalls : calls.length = 1)
    (hOffset : ∀ buffer, ∀ segment ∈ (env.whisper 0 buffer).outcome.2, segment.offsetMs < 2 ^ 64) :
    StartsFit (env.windows calls) := by
  obtain ⟨call, rfl⟩ := List.length_eq_one_iff.mp hCalls
  intro before window after hSplit segment hSegment
  cases before with
  | nil =>
    obtain ⟨rfl, -⟩ := List.cons.inj hSplit
    rw [origin, List.map_nil, List.sum_nil, Nat.zero_add]
    exact hOffset call.buffer segment hSegment
  | cons first before =>
    obtain ⟨-, hNone⟩ := List.cons.inj hSplit
    cases before <;> cases hNone

/-- A run of one window has nothing that could overtake. -/
theorem noneOvertaken_single {env : Surroundings} {calls : List WindowCall} (hCalls : calls.length = 1)
    (finals : Nat) : NoneOvertaken (env.windows calls) finals := by
  obtain ⟨call, rfl⟩ := List.length_eq_one_iff.mp hCalls
  intro before window lull next after first rest hSplit
  cases before with
  | nil =>
    obtain ⟨-, hNone⟩ := List.cons.inj hSplit
    cases lull <;> cases hNone
  | cons first before =>
    obtain ⟨-, hNone⟩ := List.cons.inj hSplit
    cases before <;> cases hNone

theorem final_starts_ordered_short :
    NoneOvertaken (shortTalk.windows (shortTalk.transcribe talkOptions 4).2.calls)
        (shortTalk.transcribe talkOptions 4).2.finals.length ∧
      FinalsOrdered (shortTalk.transcribe talkOptions 4).2 := by
  have hSegments : StartsInOrder (shortTalk.whisper 0 []).outcome.2 := by
    constructor <;> decide
  have hOffsets : ∀ segment ∈ (shortTalk.whisper 0 []).outcome.2, segment.offsetMs < 2 ^ 64 := by
    decide
  have hSingle : (shortTalk.transcribe talkOptions 4).2.calls.length = 1 := by decide +kernel
  have hNone := @noneOvertaken_single shortTalk _ hSingle
    (shortTalk.transcribe talkOptions 4).2.finals.length
  have hFit := @startsFit_single shortTalk _ hSingle fun _ => hOffsets
  exact ⟨hNone, (final_starts_ordered_iff shortTalk talkOptions 4 (fun _ _ => hSegments) hFit).1.2 hNone⟩

/-- A little more than a second of audio. The first window decodes one segment, which starts
half a second past its end; the rest of the audio decodes to one that starts at once. -/
def lateTalk : Surroundings where
  pcm := List.replicate 16001 0
  readSize _ := 16000
  stopFrom := none
  sinkOk _ := true
  whisper call _ :=
    .returns 0 (if call = 0 then [⟨150, 200, ascii "hello", false, []⟩] else
      [⟨0, 50, ascii "you", false, []⟩]) (some (ascii "en"))

theorem lateTalk_orderly : lateTalk.Orderly := by
  intro call buffer
  by_cases hFirst : call = 0
  · subst hFirst
    have hSegments : StartsInOrder (lateTalk.whisper 0 []).outcome.2 := by
      constructor <;> decide
    exact hSegments
  · rw [lateTalk]
    simp only [if_neg hFirst]
    constructor <;> decide

/-- The segment past the end of its window is finalized before one that starts earlier. -/
theorem final_start_goes_backward :
    ¬ ∀ (env : Surroundings) (options : EngineOptions) (rounds : Nat), env.Orderly →
      FinalsOrdered (env.transcribe options rounds).2 := by
  intro h
  have hOrdered := h lateTalk talkOptions 5 lateTalk_orderly
  have hStarts : (lateTalk.transcribe talkOptions 5).2.finals.map EngineSegment.startMs =
      [1500, 1000] := by decide +kernel
  rw [FinalsOrdered, hStarts] at hOrdered
  exact absurd hOrdered (by decide)

end GrpcAsr.Asr
