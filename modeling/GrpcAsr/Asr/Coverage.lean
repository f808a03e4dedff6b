import GrpcAsr.Asr.Superseded

/-!
# The windows of an undisturbed run

The loop keeps its position in milliseconds and erases its buffer in samples. A window that
is not the last is full, and a full window is a whole number of milliseconds, so the two
never drift apart: every window starts at the sample its base says, strictly after the
previous one and not after its end, and the last one ends with the source.
-/

namespace GrpcAsr.Asr

set_option autoImplicit false

open Interaction Routine Transcriber
open Media (Bytes ascii)

/-- The sizes fit the integers the loop computes with: whisper takes the number of samples
as an `int`, and times are milliseconds in 64 bits. -/
def EngineOptions.Fits (options : EngineOptions) : Prop :=
  options.windowSeconds * modelSampleRate < 2 ^ 31 ∧
    options.maxDurationSeconds * modelSampleRate * 1000 < 2 ^ 64

/-- No stop, no refusal by the sink, no failing whisper call, and media below the cap. -/
structure Surroundings.Undisturbed (env : Surroundings) (options : EngineOptions) : Prop where
  stop : env.stopFrom = none
  sink : ∀ k, env.sinkOk k = true
  whisper : ∀ call buffer, (env.whisper call buffer).outcome.1 = 0
  cap : env.pcm.length ≤ (maxSamples options).toNat

/-- The sample a call's window starts at. -/
def WindowCall.start (call : WindowCall) : Nat := 16 * call.run.windowBaseMs.toNat

/-- The window is full of samples of the source. -/
def WindowCall.Full (pcm : List Sample) (window : Nat) (call : WindowCall) : Prop :=
  call.buffer = (pcm.drop call.start).take window ∧ call.buffer.length = window

/-- The first window starts with the source; each further one starts after the one before,
which is full, and not after its end. -/
structure Walk (pcm : List Sample) (window : Nat) (calls : List WindowCall) : Prop where
  first : ∀ call rest, calls = call :: rest → call.start = 0
  next : ∀ before call next after, calls = before ++ call :: next :: after →
    call.Full pcm window ∧ call.start < next.start ∧ next.start ≤ call.start + window

/-- The calls cover the source. -/
structure Coverage (pcm : List Sample) (options : EngineOptions) (calls : List WindowCall) : Prop where
  walk : Walk pcm (windowSamples options) calls
  some : pcm ≠ [] → calls ≠ []
  bound : ∀ call ∈ calls, call.buffer.length ≤ windowSamples options
  last : ∀ before call, calls = before ++ [call] → call.start < pcm.length ∧
    pcm.length ≤ call.start + windowSamples options ∧
    call.buffer = padded (pcm.drop call.start) true

theorem Walk.nil (pcm : List Sample) (window : Nat) : Walk pcm window [] where
  first := by rintro call rest ⟨⟩
  next := by
    intro before call next after hSplit
    cases before <;> cases hSplit

theorem Walk.snoc {pcm : List Sample} {window : Nat} {calls : List WindowCall} {call : WindowCall}
    (h : Walk pcm window calls) (hFirst : calls = [] → call.start = 0)
    (hNext : ∀ before last, calls = before ++ [last] →
      last.Full pcm window ∧ last.start < call.start ∧ call.start ≤ last.start + window) :
    Walk pcm window (calls ++ [call]) where
  first := by
    intro other rest hSplit
    cases calls with
    | nil =>
      obtain ⟨rfl, -⟩ := List.cons.inj hSplit
      exact hFirst rfl
    | cons first calls =>
      obtain ⟨rfl, -⟩ := List.cons.inj hSplit
      exact h.first _ calls rfl
  next := by
    intro before other next after hSplit
    have hLater := hSplit.trans (List.append_cons before other (next :: after))
    rcases History.snoc_eq_append_cons.mp hLater with ⟨hCalls, rfl, -⟩ | ⟨rest, -, hCalls⟩
    · exact hNext before other hCalls
    · exact h.next before other next rest (hCalls.trans (List.append_cons before other (next :: rest)).symm)

section Times

variable {options : EngineOptions}

/-- A full window is a whole number of milliseconds. -/
theorem windowMs_full (hFits : options.Fits) {buffer : List Sample}
    (h : buffer.length = windowSamples options) :
    (windowMs buffer).toNat * 16 = buffer.length := by
  have hBound : options.windowSeconds * 16000 < 2147483648 := hFits.1
  have hLength : buffer.length = options.windowSeconds * 16000 := h
  have hMs : (windowMs buffer).toNat = buffer.length * 1000 % 2 ^ 64 / 16000 := by
    simp [windowMs, modelSampleRate, UInt64.toNat_div, UInt64.toNat_mul]
  have hLess : options.windowSeconds * 16000 * 1000 < 2 ^ 64 := by
    refine Nat.lt_of_lt_of_le (Nat.mul_lt_mul_of_pos_right hBound (by decide)) (by decide)
  rw [hMs, hLength, Nat.mod_eq_of_lt hLess]
  omega

/-- The next window starts inside this one or at its end. -/
theorem cutWindow_resume {segments : Nat} {windowMs lastStartMs : UInt64} (h : 0 < windowMs.toNat) :
    0 < (cutWindow segments false windowMs lastStartMs).resumeMs.toNat ∧
      (cutWindow segments false windowMs lastStartMs).resumeMs.toNat ≤ windowMs.toNat := by
  unfold cutWindow
  split
  · exact ⟨h, le_refl _⟩
  · split
    · rename_i hHeld
      simp only [Bool.and_eq_true, decide_eq_true_eq] at hHeld
      exact ⟨UInt64.lt_iff_toNat_lt.mp hHeld.1.2, Nat.le_of_lt (UInt64.lt_iff_toNat_lt.mp hHeld.2)⟩
    · exact ⟨h, le_refl _⟩

theorem keepFrom_eq (hFits : options.Fits) {resumeMs : UInt64}
    (h : resumeMs.toNat * 16 ≤ windowSamples options) :
    (resumeMs * UInt64.ofNat modelSampleRate / 1000).toNat = 16 * resumeMs.toNat := by
  have hBound : options.windowSeconds * 16000 < 2147483648 := hFits.1
  have hResume : resumeMs.toNat * 16 ≤ options.windowSeconds * 16000 := h
  have hKeep : (resumeMs * UInt64.ofNat modelSampleRate / 1000).toNat =
      resumeMs.toNat * 16000 % 2 ^ 64 / 1000 := by
    simp [modelSampleRate, UInt64.toNat_div, UInt64.toNat_mul]
  have hLess : resumeMs.toNat * 16000 < 2 ^ 64 := by
    have hSmall : resumeMs.toNat * 16 < 2147483648 := Nat.lt_of_le_of_lt hResume hBound
    calc resumeMs.toNat * 16000 = resumeMs.toNat * 16 * 1000 := by rw [Nat.mul_assoc]
      _ < 2147483648 * 1000 := Nat.mul_lt_mul_of_pos_right hSmall (by decide)
      _ ≤ 2 ^ 64 := by decide
  rw [hKeep, Nat.mod_eq_of_lt hLess]
  omega

theorem cap_bound (hFits : options.Fits) : (maxSamples options).toNat * 1000 < 2 ^ 64 := by
  have hLe : (maxSamples options).toNat ≤ options.maxDurationSeconds * modelSampleRate := by
    rw [maxSamples, ← UInt64.ofNat_mul, UInt64.toNat_ofNat']
    exact Nat.mod_le _ _
  exact Nat.lt_of_le_of_lt (Nat.mul_le_mul_right 1000 hLe) hFits.2

end Times

section Walking

variable (env : Surroundings) (options : EngineOptions)

/-- Where the loop is: how much it has read and the time its buffer starts at. -/
structure Position (consumed base : Nat) (loop : Loop) (session : Session) : Prop where
  read : loop.consumed = UInt64.ofNat consumed
  starts : loop.run.windowBaseMs = UInt64.ofNat base
  left : session.left = env.pcm.drop consumed
  within : consumed ≤ env.pcm.length
  behind : 16 * base ≤ consumed
  window : consumed ≤ 16 * base + windowSamples options
  source : loop.sourceDone = true → consumed = env.pcm.length
  running : loop.run.abort = false
  going : loop.result.aborted = false

/-- Samples still to be read or passed, and the end of the source still to be seen. -/
def ahead (consumed base : Nat) (sourceDone : Bool) : Nat :=
  (env.pcm.length - consumed) + (env.pcm.length - 16 * base) + if sourceDone then 0 else 1

structure WalkHead (n consumed base : Nat) (loop : Loop) (session : Session) : Prop where
  position : Position env options consumed base loop session
  buffer : loop.buffer = (env.pcm.take consumed).drop (16 * base)
  walk : Walk env.pcm (windowSamples options) session.calls
  first : session.calls = [] → base = 0
  resumes : ∀ before last, session.calls = before ++ [last] →
    last.Full env.pcm (windowSamples options) ∧ last.start < 16 * base ∧
      16 * base ≤ last.start + windowSamples options
  rounds : ahead env consumed base loop.sourceDone < n

/-- Inside and after a whisper call on the buffer. -/
structure WalkCall (n consumed base : Nat) (loop : Loop) (session : Session) : Prop where
  position : Position env options consumed base loop session
  buffer : loop.buffer = padded ((env.pcm.take consumed).drop (16 * base)) loop.sourceDone
  started : 16 * base < consumed
  full : loop.sourceDone = false → consumed = 16 * base + windowSamples options
  called : ∃ calls call, session.calls = calls ++ [call] ∧ call.start = 16 * base ∧
    call.buffer = loop.buffer
  walk : Walk env.pcm (windowSamples options) session.calls
  rounds : ahead env consumed base loop.sourceDone ≤ n

variable {env options} {n consumed base : Nat} {loop : Loop} {session : Session}

/-- The position does not depend on what else changes. -/
theorem Position.keep {loop' : Loop} {session' : Session}
    (h : Position env options consumed base loop session)
    (hRead : loop'.consumed = loop.consumed) (hRun : loop'.run = loop.run)
    (hSource : loop'.sourceDone = loop.sourceDone) (hGoing : loop'.result.aborted = false)
    (hLeft : session'.left = session.left) : Position env options consumed base loop' session' where
  read := hRead.trans h.read
  starts := by rw [hRun, h.starts]
  left := hLeft.trans h.left
  within := h.within
  behind := h.behind
  window := h.window
  source hDone := h.source (hSource ▸ hDone)
  running := by rw [hRun, h.running]
  going := hGoing

theorem Position.length_buffer (h : Position env options consumed base loop session) :
    ((env.pcm.take consumed).drop (16 * base)).length = consumed - 16 * base := by
  have hWithin := h.within
  rw [List.length_drop, List.length_take]
  omega

theorem length_padded_le {buffer : List Sample} {sourceDone : Bool}
    (hWindow : 1 ≤ options.windowSeconds) (h : buffer.length ≤ windowSamples options) :
    (padded buffer sourceDone).length ≤ windowSamples options := by
  have hSecond : modelSampleRate ≤ windowSamples options := Nat.le_mul_of_pos_left _ hWindow
  unfold padded
  split
  · rename_i hShort
    simp only [Bool.and_eq_true, decide_eq_true_eq] at hShort
    rw [List.length_append, List.length_replicate]
    omega
  · exact h

theorem Walk.bound {calls : List WindowCall} {window : Nat} (h : Walk env.pcm window calls)
    (hLast : ∀ before call, calls = before ++ [call] → call.buffer.length ≤ window) :
    ∀ call ∈ calls, call.buffer.length ≤ window := by
  intro call hCall
  obtain ⟨before, after, rfl⟩ := List.append_of_mem hCall
  cases after with
  | nil => exact hLast before call rfl
  | cons next after => exact Nat.le_of_eq (h.next before call next after rfl).1.2

/-- The duration of a source that was read to its end. -/
theorem withDuration_eq (hFits : options.Fits) (hCap : env.pcm.length ≤ (maxSamples options).toNat)
    (h : loop.consumed = UInt64.ofNat env.pcm.length) :
    (withDuration loop).durationMs.toNat = env.pcm.length / 16 := by
  have hBound := cap_bound hFits
  have hLess : env.pcm.length * 1000 < 2 ^ 64 :=
    Nat.lt_of_le_of_lt (Nat.mul_le_mul_right 1000 hCap) hBound
  have hMs : (withDuration loop).durationMs.toNat = env.pcm.length * 1000 % 2 ^ 64 / 16000 := by
    simp [withDuration, h, modelSampleRate, UInt64.toNat_div, UInt64.toNat_mul]
  rw [hMs, Nat.mod_eq_of_lt hLess]
  omega

/-- The source ended with a window that was full. -/
theorem WalkHead.coverage (h : WalkHead env options n consumed base loop session)
    (hWindow : 1 ≤ options.windowSeconds) (hRoom : loop.hasRoom options = false)
    (hNil : loop.buffer = []) :
    loop.consumed = UInt64.ofNat env.pcm.length ∧ Coverage env.pcm options session.calls := by
  have hSecond : modelSampleRate ≤ windowSamples options := Nat.le_mul_of_pos_left _ hWindow
  have hRate : 0 < modelSampleRate := by decide
  have hSource : loop.sourceDone = true := by
    rw [Loop.hasRoom, hNil, List.length_nil, decide_eq_true (by omega), Bool.and_true] at hRoom
    simpa using hRoom
  have hEnd := h.position.source hSource
  have hLength := h.position.length_buffer
  rw [← h.buffer, hNil, List.length_nil] at hLength
  have hBehind := h.position.behind
  have hBase : 16 * base = env.pcm.length := by omega
  have hLast : ∀ before call, session.calls = before ++ [call] → call.start < env.pcm.length ∧
      env.pcm.length ≤ call.start + windowSamples options ∧
      call.buffer = padded (env.pcm.drop call.start) true := by
    intro before call hCalls
    obtain ⟨⟨hBuffer, hFull⟩, hBefore, hReach⟩ := h.resumes before call hCalls
    refine ⟨by omega, by omega, ?_⟩
    have hAll : (env.pcm.drop call.start).length ≤ windowSamples options := by
      rw [List.length_drop]
      omega
    rw [List.take_of_length_le hAll] at hBuffer
    rw [← hBuffer, padded, decide_eq_false (by omega), Bool.and_false, if_neg Bool.false_ne_true]
  refine ⟨hEnd ▸ h.position.read, h.walk, ?_, ?_, hLast⟩
  · intro hSome hNone
    have hZero := h.first hNone
    rw [hZero] at hBase
    exact hSome (List.length_eq_zero_iff.mp hBase.symm)
  · exact h.walk.bound fun before call hCalls =>
      Nat.le_of_eq (h.resumes before call hCalls).1.2

/-- The source ended inside this window. -/
theorem WalkCall.coverage (h : WalkCall env options n consumed base loop session)
    (hWindow : 1 ≤ options.windowSeconds) (hSource : loop.sourceDone = true) :
    loop.consumed = UInt64.ofNat env.pcm.length ∧ Coverage env.pcm options session.calls := by
  have hEnd := h.position.source hSource
  have hReach := h.position.window
  have hStarted := h.started
  have hBuffer := h.buffer
  obtain ⟨calls, call, hCalls, hStart, hCall⟩ := h.called
  rw [hSource, hEnd, List.take_length, ← hStart, ← hCall] at hBuffer
  have hIs : ∀ before other, session.calls = before ++ [other] → other = call := by
    intro before other hOther
    rw [hCalls] at hOther
    exact (List.singleton_inj.mp (List.append_inj' hOther rfl).2).symm
  refine ⟨hEnd ▸ h.position.read, h.walk, ?_, ?_, ?_⟩
  · intro _ hNone
    rw [hCalls] at hNone
    exact absurd hNone (by simp)
  · refine h.walk.bound fun before other hOther => ?_
    rw [hIs before other hOther, hBuffer]
    refine length_padded_le hWindow ?_
    rw [List.length_drop]
    omega
  · intro before other hOther
    rw [hIs before other hOther]
    exact ⟨by omega, by omega, hBuffer⟩

/-- The next window starts where this one says. -/
theorem WalkCall.carry {segments : List WhisperSegment} {result : EngineResult}
    (h : WalkCall env options n consumed base loop session) (hWindow : 1 ≤ options.windowSeconds)
    (hFits : options.Fits) (hSource : loop.sourceDone = false) (hResult : result.aborted = false) :
    ∃ base', WalkHead env options n consumed base'
      (Transcriber.carry loop (loop.finals options segments) (loop.cut segments) result) session := by
  have hSecond : modelSampleRate ≤ windowSamples options := Nat.le_mul_of_pos_left _ hWindow
  have hRate : modelSampleRate = 16000 := rfl
  have hFull := h.full hSource
  have hWithin := h.position.within
  have hBuffer := h.buffer
  rw [hSource, padded, Bool.false_and, if_neg Bool.false_ne_true] at hBuffer
  have hLength : loop.buffer.length = windowSamples options := by
    rw [hBuffer, h.position.length_buffer]
    omega
  have hMs := windowMs_full hFits hLength
  obtain ⟨hPositive, hInside⟩ : 0 < (loop.cut segments).resumeMs.toNat ∧
      (loop.cut segments).resumeMs.toNat ≤ (windowMs loop.buffer).toNat := by
    rw [Loop.cut, hSource]
    exact cutWindow_resume (by omega)
  obtain ⟨calls, call, hCalls, hStart, hCall⟩ := h.called
  generalize hResume : (loop.cut segments).resumeMs = resume at hPositive hInside
  have hKeep := @keepFrom_eq options hFits resume (by omega)
  refine ⟨base + resume.toNat, ⟨?_, ?_, ?_, ?_, ?_, ?_⟩⟩
  · refine ⟨h.position.read, ?_, h.position.left, hWithin, by omega, by omega, ?_,
      h.position.running, hResult⟩
    · rw [UInt64.ofNat_add, ← h.position.starts, UInt64.ofNat_toNat]
      exact congrArg (loop.run.windowBaseMs + ·) hResume
    · exact h.position.source
  · change loop.buffer.drop (min ((loop.cut segments).resumeMs * UInt64.ofNat modelSampleRate /
      1000).toNat loop.buffer.length) = _
    rw [hResume, hKeep, Nat.min_eq_left (by omega), hBuffer, List.drop_drop, Nat.mul_add]
  · exact h.walk
  · intro hNone
    rw [hCalls] at hNone
    exact absurd hNone (by simp)
  · intro before last hOther
    rw [hCalls] at hOther
    obtain rfl := List.singleton_inj.mp (List.append_inj' hOther rfl).2
    refine ⟨⟨?_, ?_⟩, by omega, by omega⟩
    · rw [hCall, hBuffer, hStart, List.drop_take]
      congr 1
      omega
    · rw [hCall, hLength]
  · have hRounds := h.rounds
    change ahead env consumed (base + resume.toNat) loop.sourceDone < n
    rw [ahead] at hRounds ⊢
    omega

theorem Surroundings.Undisturbed.length_lt (hQuiet : env.Undisturbed options) :
    env.pcm.length < 2 ^ 64 :=
  Nat.lt_of_le_of_lt hQuiet.cap (maxSamples options).toNat_lt

theorem Surroundings.Undisturbed.stop_answer (hQuiet : env.Undisturbed options) (session : Session) :
    (env.serve session .stopRequested).1 = false := by
  change env.stopSeen session.checks = false
  rw [Surroundings.stopSeen, hQuiet.stop]
  rfl

/-- A read that finds the end of the source. -/
theorem WalkHead.ended (h : WalkHead env options (n + 1) consumed base loop session)
    (hRoom : loop.hasRoom options = true)
    (hEmpty : (env.serve session (.read (windowSamples options - loop.buffer.length))).1 = []) :
    WalkHead env options n consumed base { loop with sourceDone := true }
      (env.serve session (.read (windowSamples options - loop.buffer.length))).2 := by
  simp only [Loop.hasRoom, Bool.and_eq_true, Bool.not_eq_true', decide_eq_true_eq] at hRoom
  have hLeft : session.left = [] := by
    rcases List.take_eq_nil_iff.mp hEmpty with hZero | hNil
    · omega
    · exact hNil
  have hEnd : consumed = env.pcm.length := by
    have hLength := congrArg List.length h.position.left
    have hWithin := h.position.within
    rw [hLeft, List.length_nil, List.length_drop] at hLength
    omega
  refine ⟨⟨h.position.read, h.position.starts, ?_, h.position.within, h.position.behind,
    h.position.window, fun _ => hEnd, h.position.running, h.position.going⟩, h.buffer, h.walk, h.first,
    h.resumes, ?_⟩
  · change session.left.drop _ = _
    rw [hLeft, List.drop_nil, ← hLeft, h.position.left]
  · have hRounds := h.rounds
    rw [ahead, hRoom.1] at hRounds
    rw [ahead]
    simp only [Bool.false_eq_true, if_false, if_true] at hRounds ⊢
    omega

/-- A read that gets some samples stays below the cap. -/
theorem WalkHead.filled (h : WalkHead env options (n + 1) consumed base loop session)
    (hQuiet : env.Undisturbed options) (hRoom : loop.hasRoom options = true) {got : List Sample}
    (hGot : (env.serve session (.read (windowSamples options - loop.buffer.length))).1 = got)
    (hSome : got ≠ []) :
    ¬ maxSamples options < loop.consumed + UInt64.ofNat got.length ∧
    WalkHead env options n (consumed + got.length) base
      { loop with
        buffer := loop.buffer ++ got
        consumed := loop.consumed + UInt64.ofNat got.length }
      (env.serve session (.read (windowSamples options - loop.buffer.length))).2 := by
  simp only [Loop.hasRoom, Bool.and_eq_true, Bool.not_eq_true', decide_eq_true_eq] at hRoom
  have hTake : got = session.left.take got.length := by
    rw [← hGot]
    change session.left.take _ = session.left.take (session.left.take _).length
    conv_rhs => rw [List.length_take, ← List.take_take, List.take_length]
  have hPositive := List.length_pos_iff.mpr hSome
  have hLess := hQuiet.length_lt
  have hCap := hQuiet.cap
  have hWithin : consumed + got.length ≤ env.pcm.length := by
    have hLength := congrArg List.length hTake
    have hBefore := h.position.within
    rw [List.length_take, h.position.left, List.length_drop] at hLength
    omega
  have hAsked : got.length ≤ windowSamples options - loop.buffer.length := by
    rw [← hGot]
    change (session.left.take _).length ≤ _
    rw [List.length_take]
    omega
  have hBuffer := h.position.length_buffer
  rw [← h.buffer] at hBuffer
  have hBehind := h.position.behind
  have hConsumed : loop.consumed + UInt64.ofNat got.length = UInt64.ofNat (consumed + got.length) := by
    rw [UInt64.ofNat_add, h.position.read]
  refine ⟨?_, ⟨hConsumed, h.position.starts, ?_, hWithin, by omega, by omega, ?_,
    h.position.running, h.position.going⟩, ?_, h.walk, h.first, h.resumes, ?_⟩
  · rw [hConsumed, UInt64.lt_iff_toNat_lt, UInt64.toNat_ofNat', Nat.mod_eq_of_lt (by omega)]
    omega
  · change session.left.drop (env.serve session (.read _)).1.length = _
    rw [hGot, h.position.left, List.drop_drop]
  · intro hTrue
    rw [hRoom.1] at hTrue
    cases hTrue
  · have hNext : env.pcm.take (consumed + got.length) = env.pcm.take consumed ++ got := by
      rw [List.take_add, ← h.position.left, ← hTake]
    rw [h.buffer, hNext, List.drop_append_of_le_length]
    rw [List.length_take]
    omega
  · have hRounds := h.rounds
    rw [ahead] at hRounds ⊢
    dsimp only
    omega

/-- A whisper call on what is in the buffer. -/
theorem WalkHead.called (h : WalkHead env options (n + 1) consumed base loop session)
    (hQuiet : env.Undisturbed options) (hRoom : loop.hasRoom options = false)
    (hSome : loop.buffer ≠ []) :
    WalkCall env options n consumed base loop.padded
      (env.serve session (.whisper loop.run loop.padded.buffer)).2 := by
  have hLength := h.position.length_buffer
  rw [← h.buffer] at hLength
  have hPositive := List.length_pos_iff.mpr hSome
  have hBehind := h.position.behind
  have hReach := h.position.window
  have hLess := hQuiet.length_lt
  have hWithin := h.position.within
  have hStart : (⟨loop.run, loop.padded.buffer⟩ : WindowCall).start = 16 * base := by
    rw [WindowCall.start, h.position.starts, UInt64.toNat_ofNat', Nat.mod_eq_of_lt (by omega)]
  refine ⟨h.position.keep rfl rfl rfl h.position.going rfl, ?_, by omega, ?_, ?_, ?_, ?_⟩
  · exact congrArg (padded · loop.sourceDone) h.buffer
  · intro hSource
    have hDone : loop.sourceDone = false := hSource
    rw [Loop.hasRoom, hDone] at hRoom
    simp only [Bool.not_false, Bool.true_and, decide_eq_false_iff_not] at hRoom
    omega
  · exact ⟨session.calls, _, rfl, hStart, rfl⟩
  · refine h.walk.snoc (fun hNone => ?_) fun before last hCalls => ?_
    · rw [hStart, h.first hNone]
    · rw [hStart]
      exact h.resumes before last hCalls
  · have hRounds := h.rounds
    change ahead env consumed base loop.sourceDone ≤ n
    omega

theorem WalkCall.served {request : EngineRequest}
    (h : WalkCall env options n consumed base loop session)
    (hCalls : (env.serve session request).2.calls = session.calls)
    (hLeft : (env.serve session request).2.left = session.left) :
    WalkCall env options n consumed base loop (env.serve session request).2 := by
  refine ⟨h.position.keep rfl rfl rfl h.position.going hLeft, h.buffer, h.started, h.full, ?_, ?_,
    h.rounds⟩
  · rw [hCalls]
    exact h.called
  · rw [hCalls]
    exact h.walk

/-- An undisturbed run walks over its source and ends. -/
def walkPlan (env : Surroundings) (options : EngineOptions) (hWindow : 1 ≤ options.windowSeconds)
    (hFits : options.Fits) (hQuiet : env.Undisturbed options) :
    Plan (Contract.serving env.serve) engineHost options fun _ _ _ => False where
  head n loop _ session := ∃ consumed base, WalkHead env options n consumed base loop session
  ready n loop _ session := ∃ consumed base, WalkHead env options (n + 1) consumed base loop session
  busy n loop _ whisper run _ session :=
    (∃ consumed base, WalkCall env options n consumed base loop session) ∧ run = loop.run ∧
      whisper.outcome.1 = 0
  emitting n loop _ _ result _ session :=
    (∃ consumed base, WalkCall env options n consumed base loop session) ∧ result.aborted = false
  failing _ _ := False
  done result _ session := result.aborted = false ∧ result.durationMs.toNat = env.pcm.length / 16 ∧
    Coverage env.pcm options session.calls
  wait _ := by
    refine Triple.throw _ ?_
    rintro s session ⟨consumed, base, h⟩
    exact Nat.not_lt_zero _ h.rounds
  throw _ := Triple.throw _ fun _ _ hFalse => hFalse
  aborted := by
    rintro n loop s session hAbort ⟨consumed, base, h⟩
    rw [h.position.running] at hAbort
    cases hAbort
  stop n loop := by
    refine request_triple ?_
    rintro s session ⟨consumed, base, h⟩
    rw [hQuiet.stop_answer session]
    exact ⟨consumed, base, h.position.keep rfl rfl rfl h.position.going rfl, h.buffer, h.walk, h.first,
      h.resumes, h.rounds⟩
  finished := by
    rintro n loop s session ⟨consumed, base, h⟩ hRoom hNil
    obtain ⟨hRead, hCoverage⟩ := h.coverage hWindow hRoom hNil
    exact ⟨h.position.going, withDuration_eq hFits hQuiet.cap hRead, hCoverage⟩
  read n loop hRoom := by
    refine request_triple ?_
    rintro s session ⟨consumed, base, h⟩
    generalize hGot : (env.serve session
      (.read (windowSamples options - loop.buffer.length))).1 = got
    cases got with
    | nil => exact ⟨consumed, base, h.ended hRoom hGot⟩
    | cons sample got =>
      obtain ⟨hCap, hFilled⟩ := h.filled hQuiet hRoom hGot (List.cons_ne_nil _ _)
      simp only [List.isEmpty_cons, Bool.false_eq_true, if_false, if_neg hCap]
      exact ⟨_, base, hFilled⟩
  call n loop hRoom hSome := by
    refine request_triple ?_
    rintro s session ⟨consumed, base, h⟩
    exact ⟨⟨consumed, base, h.called hQuiet hRoom hSome⟩, rfl, hQuiet.whisper _ _⟩
  report := fun h => h
  sink n loop segment segments whisper run := by
    refine request_triple ?_
    rintro s session ⟨⟨consumed, base, h⟩, hRun, hCode⟩
    have hAnswer : (env.serve session (.sink segment false)).1 = true := hQuiet.sink _
    rw [hAnswer]
    exact ⟨⟨consumed, base, h.served rfl rfl⟩, hRun, hCode⟩
  polled := by
    rintro n loop next run s session hAbort ⟨⟨consumed, base, h⟩, rfl, -⟩
    rw [h.position.running] at hAbort
    cases hAbort
  poll n loop next run _ := by
    refine request_triple ?_
    rintro s session ⟨⟨consumed, base, h⟩, hRun, hCode⟩
    rw [hQuiet.stop_answer session]
    exact ⟨⟨consumed, base, h.served rfl rfl⟩, hRun, hCode⟩
  given := by
    rintro n loop code segments language run s session hAbort ⟨⟨consumed, base, h⟩, rfl, -⟩
    rw [h.position.running] at hAbort
    cases hAbort
  returned n loop code segments language run _ := by
    refine request_triple ?_
    rintro s session ⟨⟨consumed, base, h⟩, rfl, hCode⟩
    have hZero : code = 0 := hCode
    rw [hQuiet.stop_answer session, hZero]
    simp only [Bool.false_eq_true, if_false, ne_eq, not_true_eq_false]
    have hGoing := (setLanguage_aborted loop.result language).trans h.position.going
    exact ⟨⟨consumed, base, h.position.keep rfl rfl rfl hGoing rfl, h.buffer, h.started, h.full,
      h.called, h.walk, h.rounds⟩, hGoing⟩
  emit n loop segments final rest result := by
    refine request_triple ?_
    rintro s session ⟨⟨consumed, base, h⟩, hResult⟩
    have hAnswer : (env.serve session (.sink final true)).1 = true := hQuiet.sink _
    rw [hAnswer]
    exact ⟨⟨consumed, base, h.served rfl rfl⟩, hResult⟩
  emitted := by
    rintro n loop segments result s session ⟨⟨consumed, base, h⟩, hResult⟩
    refine ⟨hResult, ?_⟩
    split
    · rename_i hSource
      obtain ⟨hRead, hCoverage⟩ := h.coverage hWindow hSource
      exact ⟨hResult, withDuration_eq hFits hQuiet.cap hRead, hCoverage⟩
    · rename_i hSource
      exact ⟨consumed, h.carry hWindow hFits (Bool.eq_false_iff.mpr hSource) hResult⟩

end Walking

/-- An undisturbed run ends within twice as many rounds as there are samples, its windows
cover the source, and it reports the source's duration. -/
theorem windows_cover_media (env : Surroundings) (options : EngineOptions) (rounds : Nat)
    (hWindow : 1 ≤ options.windowSeconds) (hFits : options.Fits) (hQuiet : env.Undisturbed options)
    (hRounds : 2 * env.pcm.length + 2 ≤ rounds) :
    ∃ result, (env.transcribe options rounds).1 = .ok result ∧ result.aborted = false ∧
      result.durationMs.toNat = env.pcm.length / 16 ∧
      Coverage env.pcm options (env.transcribe options rounds).2.calls := by
  have hStart : WalkHead env options rounds 0 0 startLoop env.start := by
    refine ⟨⟨rfl, rfl, rfl, Nat.zero_le _, le_refl _, Nat.zero_le _, fun hFalse => (nomatch hFalse), rfl,
      rfl⟩, rfl, .nil _ _, fun _ => rfl, ?_, ?_⟩
    · intro before last hSplit
      cases before <;> cases hSplit
    · rw [ahead]
      simp only [startLoop, Bool.false_eq_true, if_false]
      omega
  obtain ⟨hOk, hError⟩ := Surroundings.transcribe_meets
    ((walkPlan env options hWindow hFits hQuiet).run_triple rounds) ⟨0, 0, hStart⟩
  cases hResult : (env.transcribe options rounds).1 with
  | ok result => exact ⟨result, rfl, hOk result hResult⟩
  | error error => exact (hError error hResult).elim

theorem windows_cover_media_breaking :
    ∃ result, (breakingTalk.transcribe talkOptions 32004).1 = .ok result ∧ result.aborted = false ∧
      result.durationMs.toNat = breakingTalk.pcm.length / 16 ∧
      Coverage breakingTalk.pcm talkOptions (breakingTalk.transcribe talkOptions 32004).2.calls := by
  have hLength : breakingTalk.pcm.length = 16001 := List.length_replicate
  refine windows_cover_media breakingTalk talkOptions 32004 (by decide) ⟨by decide, by decide⟩
    ⟨rfl, fun _ => rfl, fun _ _ => rfl, ?_⟩ ?_
  · rw [hLength]
    decide
  · rw [hLength]

end GrpcAsr.Asr
