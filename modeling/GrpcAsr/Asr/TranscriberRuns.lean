import GrpcAsr.Asr.Numbering

/-!
# Runs of the transcriber

The surroundings of a run: a finite PCM source with the sizes its reads come in, from
which check on a stop is seen, which segments the sink accepts, and what each whisper call
does with its buffer. A run leaves a record of the calls and of the segments that went to
the sink, whether it completes, is aborted, throws, or is cut off after some rounds.
-/

namespace GrpcAsr.Asr

set_option autoImplicit false

open Interaction Routine Transcriber
open Media (Bytes ascii)

structure Surroundings where
  pcm : List Sample
  readSize : Nat → Nat
  stopFrom : Option Nat
  sinkOk : Nat → Bool
  whisper : Nat → List Sample → Whisper

structure WindowCall where
  run : RunState
  buffer : List Sample

/-- What is left of the source, and what has been observed of the run. -/
structure Session where
  left : List Sample
  reads : Nat
  checks : Nat
  calls : List WindowCall
  emitted : List (EngineSegment × Bool)

inductive EngineRequest
  | read (asked : Nat)
  | sink (segment : EngineSegment) (isFinal : Bool)
  | stopRequested
  | whisper (run : RunState) (buffer : List Sample)

abbrev EngineRequest.Answer : EngineRequest → Type
  | .read _ => List Sample
  | .sink _ _ => Bool
  | .stopRequested => Bool
  | .whisper _ _ => Whisper

namespace Session

def finals (session : Session) : List EngineSegment :=
  (session.emitted.filter Prod.snd).map Prod.fst

def partials (session : Session) : List EngineSegment :=
  (session.emitted.filter fun entry => !entry.2).map Prod.fst

end Session

namespace Surroundings

variable (env : Surroundings)

def stopSeen (checks : Nat) : Bool := env.stopFrom.any fun first => decide (first ≤ checks)

/-- A read gets at least one sample as long as there are any, and never more than asked. -/
def serve (session : Session) : (request : EngineRequest) → request.Answer × Session
  | .read asked =>
    let got := session.left.take (min asked (env.readSize session.reads + 1))
    (got, { session with left := session.left.drop got.length, reads := session.reads + 1 })
  | .sink segment isFinal =>
    (env.sinkOk session.emitted.length,
      { session with emitted := session.emitted ++ [(segment, isFinal)] })
  | .stopRequested =>
    (env.stopSeen session.checks, { session with checks := session.checks + 1 })
  | .whisper run buffer =>
    (env.whisper session.calls.length buffer,
      { session with calls := session.calls ++ [⟨run, buffer⟩] })

def start : Session := ⟨env.pcm, 0, 0, [], []⟩

end Surroundings

abbrev Engine := Routine EngineRequest EngineRequest.Answer Unit (Option Thrown)

def request (r : EngineRequest) : Engine r.Answer := perform r

/-- Exceptions leave the run; one that has no rounds left leaves it without an exception. -/
def engineHost : Host Engine where
  read asked := request (.read asked)
  sink segment isFinal := request (.sink segment isFinal)
  stopRequested := request .stopRequested
  whisper run buffer := request (.whisper run buffer)
  throw error := Routine.throw (some error)
  wait := Routine.throw none

/-- How a run ends, and the record it leaves. -/
def Surroundings.transcribe (env : Surroundings) (options : EngineOptions) (rounds : Nat) :
    Except (Option Thrown) EngineResult × Session :=
  let (result, session) := (Transcriber.run engineHost options rounds ()).play env.serve env.start
  (result.1, session)

/-- What a triple says of a run. -/
theorem Surroundings.transcribe_meets {env : Surroundings} {options : EngineOptions} {rounds : Nat}
    {P : Session → Prop} {Q : EngineResult → Session → Prop} {E : Option Thrown → Session → Prop}
    (h : Triple (Contract.serving env.serve) (fun _ => P) (Transcriber.run engineHost options rounds)
      (fun result _ => Q result) fun error _ => E error) (hStart : P env.start) :
    (∀ result, (env.transcribe options rounds).1 = .ok result →
      Q result (env.transcribe options rounds).2) ∧
    ∀ error, (env.transcribe options rounds).1 = .error error →
      E error (env.transcribe options rounds).2 := by
  have hPlay := (h () env.start hStart).play
  rw [transcribe]
  generalize (Transcriber.run engineHost options rounds ()).play env.serve env.start = played
    at hPlay ⊢
  obtain ⟨⟨result, u⟩, session⟩ := played
  constructor
  · rintro value rfl
    exact hPlay
  · rintro error rfl
    exact hPlay

theorem request_triple {env : Surroundings} {r : EngineRequest} {P : Unit → Session → Prop}
    {Q : r.Answer → Unit → Session → Prop} {E : Option Thrown → Unit → Session → Prop}
    (h : ∀ s session, P s session → Q (env.serve session r).1 s (env.serve session r).2) :
    Triple (Contract.serving env.serve) P (request r) Q E := Triple.perform h

/-- The record of a run tells its finals. -/
theorem engine_tracks (env : Surroundings) (options : EngineOptions) :
    Tracks (Contract.serving env.serve) engineHost options
      (fun _ _ session => Numbered options session.finals)
      (fun finals _ session => session.finals = finals ∧ Numbered options finals)
      fun finals _ session => session.finals = finals ∧ Numbered options finals where
  weaken := fun h => h
  read _ _ := request_triple fun _ _ h => h
  stop _ := by
    refine request_triple fun s session h => ?_
    split <;> exact h
  poll _ := request_triple fun _ _ h => h
  whisper _ _ _ := request_triple fun _ _ h => h
  preview segment _ := by
    refine request_triple fun s session h => ⟨?_, h.2⟩
    rw [← h.1]
    simp [Session.finals, Surroundings.serve]
  commit segment finals hNumbered := by
    refine request_triple fun s session h => ⟨?_, hNumbered⟩
    rw [← h.1]
    simp [Session.finals, Surroundings.serve]
  throw _ _ := Triple.throw _ fun _ _ h => h.1 ▸ h.2
  wait _ := Triple.throw _ fun _ _ h => h.1 ▸ h.2

/-- However a run ends, its finals are numbered; if it completes, they are counted. -/
theorem Surroundings.transcribe_numbered (env : Surroundings) (options : EngineOptions)
    (rounds : Nat) :
    Numbered options (env.transcribe options rounds).2.finals ∧
    ∀ result, (env.transcribe options rounds).1 = .ok result → result.aborted = false →
      result.Counts (env.transcribe options rounds).2.finals := by
  obtain ⟨hOk, hError⟩ := Surroundings.transcribe_meets
    ((engine_tracks env options).run_triple rounds) ⟨rfl, .nil options⟩
  generalize env.transcribe options rounds = outcome at hOk hError ⊢
  obtain ⟨result, session⟩ := outcome
  cases result with
  | ok result =>
    obtain ⟨finals, ⟨hFinals, hNumbered⟩, hCounts⟩ := hOk result rfl
    obtain rfl : session.finals = finals := hFinals
    refine ⟨hNumbered, ?_⟩
    rintro _ ⟨⟩ hRunning
    exact hCounts hRunning
  | error error => exact ⟨hError error rfl, fun _ hFalse => nomatch hFalse⟩

section Numbers

variable {options : EngineOptions}

theorem turns_le (finals : List EngineSegment) : turns finals ≤ finals.length := List.countP_le_length

def tokenTotal (finals : List EngineSegment) : Nat :=
  (finals.map fun final => final.tokenCount.toNat).sum

theorem tokenSum_from (finals : List EngineSegment) (sum : Nat) :
    finals.foldl (fun sum final => sum + final.tokenCount.toUInt64) (UInt64.ofNat sum) =
      UInt64.ofNat (sum + tokenTotal finals) := by
  induction finals generalizing sum with
  | nil => rfl
  | cons final finals ih =>
    have hCount : final.tokenCount.toUInt64 = UInt64.ofNat final.tokenCount.toNat := by
      rw [← UInt64.toNat_inj]
      simp
    rw [List.foldl_cons, hCount, ← UInt64.ofNat_add, ih, tokenTotal, tokenTotal, List.map_cons,
      List.sum_cons, Nat.add_assoc]

theorem tokenTotal_le (finals : List EngineSegment) :
    tokenTotal finals ≤ finals.length * (2 ^ 32 - 1) := by
  induction finals with
  | nil => exact Nat.zero_le _
  | cons final finals ih =>
    have hLt := final.tokenCount.toNat_lt
    rw [tokenTotal, List.map_cons, List.sum_cons, List.length_cons]
    rw [tokenTotal] at ih
    omega

end Numbers

/-- The label of the speaker after so many turns, counted without a bound. -/
def speakerAfter (options : EngineOptions) (turns : Nat) : Bytes :=
  if options.diarize then ascii ("S" ++ toString (1 + turns)) else []

/-- However a run ends, its finals are numbered from zero and labelled by the turns before
them; a run that completes reports how many there were and how many tokens they had. -/
theorem finals_numbered (env : Surroundings) (options : EngineOptions) (rounds : Nat)
    (hFew : (env.transcribe options rounds).2.finals.length < 2 ^ 32) :
    (∀ k final, (env.transcribe options rounds).2.finals[k]? = some final →
      final.index.toNat = k ∧
      final.speaker =
        speakerAfter options (turns ((env.transcribe options rounds).2.finals.take k))) ∧
    ∀ result, (env.transcribe options rounds).1 = .ok result → result.aborted = false →
      result.finalSegments.toNat = (env.transcribe options rounds).2.finals.length ∧
      result.tokens.toNat = tokenTotal (env.transcribe options rounds).2.finals := by
  obtain ⟨hNumbered, hResult⟩ := env.transcribe_numbered options rounds
  generalize (env.transcribe options rounds).2.finals = finals at hNumbered hResult hFew ⊢
  constructor
  · intro k final hFinal
    obtain ⟨hk, rfl⟩ := List.getElem?_eq_some_iff.mp hFinal
    obtain ⟨hIndex, hSpeaker⟩ := hNumbered.get hk
    have hTurns := turns_le (finals.take k)
    rw [List.length_take_of_le (Nat.le_of_lt hk)] at hTurns
    refine ⟨?_, ?_⟩
    · rw [hIndex, UInt32.toNat_ofNat']
      exact Nat.mod_eq_of_lt (Nat.lt_trans hk hFew)
    · have hNat : (UInt32.ofNat (turns (finals.take k)) + 1).toNat = 1 + turns (finals.take k) := by
        rw [UInt32.toNat_add, UInt32.toNat_ofNat']
        simp only [UInt32.toNat_ofNat]
        omega
      rw [hSpeaker, speakerLabel, speakerAfter, hNat]
  · intro result hOk hRunning
    obtain ⟨hCount, hTokens⟩ := hResult result hOk hRunning
    refine ⟨?_, ?_⟩
    · rw [hCount, UInt32.toNat_ofNat']
      exact Nat.mod_eq_of_lt hFew
    · rw [hTokens, tokenSum, show (0 : UInt64) = UInt64.ofNat 0 from rfl, tokenSum_from, Nat.zero_add,
        UInt64.toNat_ofNat']
      have hTotal := tokenTotal_le finals
      refine Nat.mod_eq_of_lt (Nat.lt_of_le_of_lt hTotal ?_)
      omega

/-- A second of speech in two segments, by two speakers. -/
def shortTalk : Surroundings where
  pcm := [0]
  readSize _ := 0
  stopFrom := none
  sinkOk _ := true
  whisper _ _ :=
    let segments := [⟨0, 40, ascii "hello", true, [⟨false, 0, 0, ascii "hello", 0, 40⟩]⟩,
      ⟨40, 90, ascii "you", false, [⟨false, 0, 0, ascii "you", 40, 90⟩]⟩]
    .newSegment segments 2 (.poll fun _ => .returns 0 segments (some (ascii "en")))

def talkOptions : EngineOptions := ⟨ascii "en", false, false, true, 4, 1, 60⟩

theorem finals_numbered_short :
    (shortTalk.transcribe talkOptions 4).2.finals.map (fun final => (final.index, final.speaker)) =
      [(0, ascii "S1"), (1, ascii "S2")] ∧
    ∀ k final, (shortTalk.transcribe talkOptions 4).2.finals[k]? = some final →
      final.index.toNat = k ∧ final.speaker =
        speakerAfter talkOptions (turns ((shortTalk.transcribe talkOptions 4).2.finals.take k)) :=
  ⟨by decide +kernel, (finals_numbered shortTalk talkOptions 4 (by decide +kernel)).1⟩

end GrpcAsr.Asr
