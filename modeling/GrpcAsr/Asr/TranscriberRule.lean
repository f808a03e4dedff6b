import GrpcAsr.Library.Interaction
import GrpcAsr.Asr.Transcriber

/-!
# A rule for the window loop

A plan says what holds at the head of the loop, after a check of the stop, inside a whisper
call with some partials still to go out, and between the finals of a window. Its obligations speak of one request
of the host at a time; the rule makes a triple for the whole run of them. The rounds left
are part of the head, so a plan that never holds with none left shows that the loop ends.
-/

namespace GrpcAsr.Asr

set_option autoImplicit false

open Interaction Routine Transcriber

/-- The window still has room and the source has not ended. -/
def Loop.hasRoom (options : EngineOptions) (loop : Loop) : Bool :=
  !loop.sourceDone && decide (loop.buffer.length < windowSamples options)

/-- The loop as a whisper call finds it. -/
def Loop.padded (loop : Loop) : Loop :=
  { loop with buffer := Transcriber.padded loop.buffer loop.sourceDone }

def Loop.cut (loop : Loop) (segments : List WhisperSegment) : WindowCut :=
  cutWindow segments.length loop.sourceDone (windowMs loop.buffer) (lastStartMs segments)

/-- The finals of a window. -/
def Loop.finals (options : EngineOptions) (loop : Loop) (segments : List WhisperSegment) :
    List EngineSegment := readSegments options loop.run segments 0 (loop.cut segments).finalize

def EngineResult.counting (result : EngineResult) (segment : EngineSegment) : EngineResult :=
  { result with
    tokens := result.tokens + segment.tokenCount.toUInt64
    finalSegments := result.finalSegments + 1 }

namespace Transcriber

variable {ι γ σ ε : Type} {ρ : ι → Type}

/-- A proof plan for the window loop. -/
structure Plan (C : Contract ι ρ γ) (host : Host (Routine ι ρ σ ε)) (options : EngineOptions)
    (E : ε → σ → γ → Prop) where
  head : Nat → Loop → σ → γ → Prop
  ready : Nat → Loop → σ → γ → Prop
  busy : Nat → Loop → List EngineSegment → Whisper → RunState → σ → γ → Prop
  emitting : Nat → Loop → List WhisperSegment → List EngineSegment → EngineResult → σ → γ → Prop
  failing : σ → γ → Prop
  done : EngineResult → σ → γ → Prop
  wait : ∀ loop, Triple C (head 0 loop) host.wait done E
  throw : ∀ error, Triple C failing (host.throw error) done E
  aborted : ∀ {n loop s g}, loop.run.abort = true → head (n + 1) loop s g →
    done (abortedWith loop.result) s g
  stop : ∀ n loop, Triple C (head (n + 1) loop) host.stopRequested
    (fun stop s g => if stop then done (abortedWith loop.result) s g else ready n loop s g) E
  finished : ∀ {n loop s g}, head (n + 1) loop s g → loop.hasRoom options = false →
    loop.buffer = [] → done (withDuration loop) s g
  read : ∀ n loop, loop.hasRoom options = true →
    Triple C (ready n loop) (host.read (windowSamples options - loop.buffer.length))
      (fun got s g =>
        if got.isEmpty then head n { loop with sourceDone := true } s g
        else if maxSamples options < loop.consumed + UInt64.ofNat got.length then failing s g
        else head n { loop with
          buffer := loop.buffer ++ got
          consumed := loop.consumed + UInt64.ofNat got.length } s g) E
  call : ∀ n loop, loop.hasRoom options = false → loop.buffer ≠ [] →
    Triple C (ready n loop) (host.whisper loop.run loop.padded.buffer)
      (fun whisper => busy n loop.padded [] whisper loop.run) E
  report : ∀ {n loop segments count next run s g},
    busy n loop [] (.newSegment segments count next) run s g →
    busy n loop (readSegments options run segments (segments.length - count) segments.length) next
      run s g
  sink : ∀ n loop segment segments whisper run,
    Triple C (busy n loop (segment :: segments) whisper run) (host.sink segment false)
      (fun ok => busy n loop segments whisper (if ok then run else { run with abort := true })) E
  polled : ∀ {n loop next run s g}, run.abort = true → busy n loop [] (.poll next) run s g →
    busy n loop [] (next true) run s g
  poll : ∀ n loop next run, run.abort = false →
    Triple C (busy n loop [] (.poll next) run) host.stopRequested
      (fun stop => busy n loop [] (next stop) run) E
  given : ∀ {n loop code segments language run s g}, run.abort = true →
    busy n loop [] (.returns code segments language) run s g → done (abortedWith loop.result) s g
  returned : ∀ n loop code segments language run, run.abort = false →
    Triple C (busy n loop [] (.returns code segments language) run) host.stopRequested
      (fun stop s g =>
        if stop then done (abortedWith loop.result) s g
        else if code ≠ 0 then failing s g
        else
          let loop := { loop with run := run, result := setLanguage loop.result language }
          emitting n loop segments (loop.finals options segments) loop.result s g) E
  emit : ∀ n loop segments final finals result,
    Triple C (emitting n loop segments (final :: finals) result) (host.sink final true)
      (fun ok s g =>
        if ok then emitting n loop segments finals (result.counting final) s g
        else done (abortedWith (result.counting final)) s g) E
  emitted : ∀ {n loop segments result s g}, emitting n loop segments [] result s g →
    result.aborted = false ∧
      if loop.sourceDone then done (withDuration { loop with result := result }) s g
      else head n (carry loop (loop.finals options segments) (loop.cut segments) result) s g

namespace Plan

variable {C : Contract ι ρ γ} {host : Host (Routine ι ρ σ ε)} {options : EngineOptions}
  {E : ε → σ → γ → Prop} (plan : Plan C host options E)

theorem stopped_triple {run : RunState} {P : σ → γ → Prop} {Q : Bool → σ → γ → Prop}
    (hAbort : run.abort = true → ∀ s g, P s g → Q true s g)
    (hAsk : run.abort = false → Triple C P host.stopRequested Q E) :
    Triple C P (stopped host run) Q E := by
  unfold stopped
  split
  · rename_i hRun
    exact .pure _ (hAbort hRun)
  · rename_i hRun
    exact hAsk (Bool.eq_false_iff.mpr hRun)

include plan

theorem onNewSegment_triple (n : Nat) (loop : Loop) (whisper : Whisper)
    (segments : List EngineSegment) (run : RunState) :
    Triple C (plan.busy n loop segments whisper run) (onNewSegment host segments run)
      (fun run' => plan.busy n loop [] whisper run') E := by
  induction segments generalizing run with
  | nil => exact .pure _ fun s g h => h
  | cons segment segments ih =>
    refine .bind (plan.sink n loop segment segments whisper run) fun ok => ?_
    cases ok with
    | true => exact ih run
    | false => exact ih { run with abort := true }

theorem decode_triple (n : Nat) (loop : Loop) (whisper : Whisper) (run : RunState) :
    Triple C (plan.busy n loop [] whisper run) (decode host options whisper run)
      (fun answer => plan.busy n loop [] (.returns answer.2.1 answer.2.2.1 answer.2.2.2) answer.1)
      E := by
  induction whisper generalizing run with
  | returns code segments language => exact .pure _ fun s g h => h
  | poll next ih =>
    refine .bind (Q := fun stop => plan.busy n loop [] (next stop) run) ?_ fun stop => ih stop run
    exact stopped_triple (fun hAbort s g h => plan.polled hAbort h) (plan.poll n loop next run)
  | newSegment segments count next ih =>
    refine .bind ((plan.onNewSegment_triple n loop next _ run).pre fun s g h => plan.report h)
      fun run' => ih run'

/-- After the finals: the run was aborted, or all of them are out. -/
theorem finalize_triple (n : Nat) (loop : Loop) (segments : List WhisperSegment)
    (finals : List EngineSegment) (result : EngineResult) :
    Triple C (plan.emitting n loop segments finals result) (finalize host finals result)
      (fun result s g =>
        if result.aborted then plan.done result s g else plan.emitting n loop segments [] result s g)
      E := by
  induction finals generalizing result with
  | nil =>
    refine .pure _ fun s g h => ?_
    rw [(plan.emitted h).1]
    exact h
  | cons final finals ih =>
    refine .bind (plan.emit n loop segments final finals result) fun ok => ?_
    cases ok with
    | true => exact ih (result.counting final)
    | false => exact .pure _ fun s g h => h

variable {next : Loop → Routine ι ρ σ ε EngineResult} {n : Nat}

theorem emitWindow_triple (hNext : ∀ loop, Triple C (plan.head n loop) (next loop) plan.done E)
    (loop : Loop) (segments : List WhisperSegment) :
    Triple C (plan.emitting n loop segments (loop.finals options segments) loop.result)
      (emitWindow host options next loop segments) plan.done E := by
  refine .bind (plan.finalize_triple n loop segments _ _) fun result => ?_
  cases hAborted : result.aborted with
  | true => exact .pure _ fun s g h => h
  | false =>
    by_cases hSource : loop.sourceDone = true
    · simp only [Bool.false_eq_true, if_false, if_pos hSource]
      refine .pure _ fun s g h => ?_
      have hEnd := (plan.emitted h).2
      rw [if_pos hSource] at hEnd
      exact hEnd
    · simp only [Bool.false_eq_true, if_false, if_neg hSource]
      refine (hNext _).pre fun s g h => ?_
      have hEnd := (plan.emitted h).2
      rw [if_neg hSource] at hEnd
      exact hEnd

theorem decodeWindow_triple (hNext : ∀ loop, Triple C (plan.head n loop) (next loop) plan.done E)
    (loop : Loop) (hRoom : loop.hasRoom options = false) (hBuffer : loop.buffer ≠ []) :
    Triple C (plan.head (n + 1) loop) (decodeWindow host options next loop) plan.done E := by
  refine .bind (Q := fun stop s g => if stop then plan.done (abortedWith loop.result) s g
    else plan.ready n loop s g) ?_ fun stop => ?_
  · exact stopped_triple (fun hAbort s g h => plan.aborted hAbort h) fun _ => plan.stop n loop
  cases stop with
  | true => exact .pure _ fun s g h => h
  | false =>
    refine .bind (plan.call n loop hRoom hBuffer) fun whisper => ?_
    refine .bind (plan.decode_triple n loop.padded whisper loop.run) fun answer => ?_
    obtain ⟨run, code, segments, language⟩ := answer
    refine .bind (Q := fun stop s g => if stop then plan.done (abortedWith loop.result) s g
      else if code ≠ 0 then plan.failing s g
      else
        let loop := { loop.padded with run := run, result := setLanguage loop.result language }
        plan.emitting n loop segments (loop.finals options segments) loop.result s g) ?_
      fun stop => ?_
    · refine stopped_triple (fun hAbort s g h => ?_)
        (plan.returned n loop.padded code segments language run)
      have hDone : plan.done (abortedWith loop.padded.result) s g := plan.given hAbort h
      exact hDone
    cases stop with
    | true => exact .pure _ fun s g h => h
    | false =>
      by_cases hCode : code ≠ 0
      · simp only [if_pos hCode]
        exact plan.throw _
      · simp only [if_neg hCode]
        exact plan.emitWindow_triple hNext _ segments

theorem fill_triple (hNext : ∀ loop, Triple C (plan.head n loop) (next loop) plan.done E)
    (loop : Loop) (hRoom : loop.hasRoom options = true) :
    Triple C (plan.head (n + 1) loop) (fill host options next loop) plan.done E := by
  refine .bind (Q := fun stop s g => if stop then plan.done (abortedWith loop.result) s g
    else plan.ready n loop s g) ?_ fun stop => ?_
  · exact stopped_triple (fun hAbort s g h => plan.aborted hAbort h) fun _ => plan.stop n loop
  cases stop with
  | true => exact .pure _ fun s g h => h
  | false =>
    refine .bind (plan.read n loop hRoom) fun got => ?_
    cases hGot : got.isEmpty with
    | true => exact hNext _
    | false =>
      by_cases hCap : maxSamples options < loop.consumed + UInt64.ofNat got.length
      · simp only [Bool.false_eq_true, if_false, if_pos hCap]
        exact plan.throw _
      · simp only [Bool.false_eq_true, if_false, if_neg hCap]
        exact hNext _

theorem rounds_triple (n : Nat) (loop : Loop) :
    Triple C (plan.head n loop) (rounds host options n loop) plan.done E := by
  induction n generalizing loop with
  | zero => exact plan.wait loop
  | succ n ih =>
    rw [rounds]
    split
    · rename_i hRoom
      exact plan.fill_triple ih loop hRoom
    · rename_i hRoom
      have hFull : loop.hasRoom options = false := Bool.eq_false_iff.mpr hRoom
      split
      · rename_i hBuffer
        exact .pure _ fun s g h => plan.finished h hFull (List.isEmpty_iff.mp hBuffer)
      · rename_i hBuffer
        exact plan.decodeWindow_triple ih loop hFull fun hNil =>
          hBuffer (List.isEmpty_iff.mpr hNil)

end Plan

/-- The loop's variables when a run starts. -/
def startLoop : Loop := ⟨⟨0, 0, 0, false⟩, [], 0, false, ⟨[], 0, 0, 0, false⟩⟩

theorem Plan.run_triple {C : Contract ι ρ γ} {host : Host (Routine ι ρ σ ε)} {options : EngineOptions}
    {E : ε → σ → γ → Prop} (plan : Plan C host options E) (n : Nat) :
    Triple C (plan.head n startLoop) (run host options n) plan.done E :=
  plan.rounds_triple n startLoop

end Transcriber

end GrpcAsr.Asr
