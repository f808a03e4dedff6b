import GrpcAsr.Asr.TranscriberRule
import GrpcAsr.Library.History

/-!
# Numbers and speakers of the finals

Every window numbers its segments from the base counters, which advance by what was
finalized. A host tracks the finals that have gone out; under any such host they are
numbered from zero without a gap, each carries the speaker that the turns before it lead
to, and a run that completes has counted them.
-/

namespace GrpcAsr.Asr

set_option autoImplicit false

open Interaction Routine Transcriber
open Media (Bytes ascii)

def turns (finals : List EngineSegment) : Nat := finals.countP EngineSegment.speakerTurnNext

def tokenSum (finals : List EngineSegment) : UInt64 :=
  finals.foldl (fun sum final => sum + final.tokenCount.toUInt64) 0

/-- The label of the speaker after so many turns. -/
def speakerLabel (options : EngineOptions) (turns : UInt32) : Bytes :=
  if options.diarize then ascii ("S" ++ toString (turns + 1).toNat) else []

/-- Each final has the number of finals before it as its index and the label its
predecessors' turns lead to. -/
def Numbered (options : EngineOptions) (finals : List EngineSegment) : Prop :=
  ∀ before final after, finals = before ++ final :: after →
    final.index = UInt32.ofNat before.length ∧
    final.speaker = speakerLabel options (UInt32.ofNat (turns before))

theorem Numbered.nil (options : EngineOptions) : Numbered options [] := by
  intro before final after hSplit
  cases before <;> cases hSplit

theorem Numbered.snoc {options : EngineOptions} {finals : List EngineSegment} {final : EngineSegment}
    (h : Numbered options finals) (hIndex : final.index = UInt32.ofNat finals.length)
    (hSpeaker : final.speaker = speakerLabel options (UInt32.ofNat (turns finals))) :
    Numbered options (finals ++ [final]) := by
  intro before other after hSplit
  rcases History.snoc_eq_append_cons.mp hSplit with ⟨rfl, rfl, -⟩ | ⟨rest, -, hFinals⟩
  · exact ⟨hIndex, hSpeaker⟩
  · exact h before other rest hFinals

theorem Numbered.get {options : EngineOptions} {finals : List EngineSegment}
    (h : Numbered options finals) {k : Nat} (hk : k < finals.length) :
    finals[k].index = UInt32.ofNat k ∧
      finals[k].speaker = speakerLabel options (UInt32.ofNat (turns (finals.take k))) := by
  have hSplit : finals = finals.take k ++ finals[k] :: finals.drop (k + 1) := by
    rw [List.getElem_cons_drop, List.take_append_drop]
  have hNumber := h _ _ _ hSplit
  rw [List.length_take_of_le (Nat.le_of_lt hk)] at hNumber
  exact hNumber

@[simp] theorem turns_append (finals more : List EngineSegment) :
    turns (finals ++ more) = turns finals + turns more := List.countP_append

@[simp] theorem tokenSum_snoc (finals : List EngineSegment) (final : EngineSegment) :
    tokenSum (finals ++ [final]) = tokenSum finals + final.tokenCount.toUInt64 :=
  List.foldl_append

/-- The counters of a result are those of the finals. -/
def EngineResult.Counts (result : EngineResult) (finals : List EngineSegment) : Prop :=
  result.finalSegments = UInt32.ofNat finals.length ∧ result.tokens = tokenSum finals

theorem EngineResult.Counts.snoc {result : EngineResult} {finals : List EngineSegment}
    (h : result.Counts finals) (final : EngineSegment) :
    (result.counting final).Counts (finals ++ [final]) := by
  refine ⟨?_, ?_⟩
  · rw [List.length_append, List.length_singleton, UInt32.ofNat_add, ← h.1]
    rfl
  · rw [tokenSum_snoc, ← h.2]
    rfl

/-- The base counters of a window are those of the finals before it. -/
def RunState.Follows (run : RunState) (finals : List EngineSegment) : Prop :=
  run.windowBaseIndex = UInt32.ofNat finals.length ∧
    run.windowBaseSpeaker = UInt32.ofNat (turns finals)

section Window

variable {options : EngineOptions} {run : RunState} {segments : List WhisperSegment}

theorem readSegments_zero (stop : Nat) :
    readSegments options run segments 0 stop =
      (segments.zipIdx.take stop).map fun entry => readSegment options run segments entry.2 entry.1 :=
  rfl

/-- The turns a prefix of a window's segments reports are the decoder's, if they are asked
for. -/
theorem turns_readSegments (hDiarize : options.diarize = true) (i : Nat) :
    turns (readSegments options run segments 0 i) =
      (segments.take i).countP WhisperSegment.speakerTurnNext := by
  have hTurn : (EngineSegment.speakerTurnNext ∘ fun entry : WhisperSegment × Nat =>
      readSegment options run segments entry.2 entry.1) =
      WhisperSegment.speakerTurnNext ∘ Prod.fst := by
    funext entry
    simp [readSegment, hDiarize]
  rw [readSegments_zero, turns, List.countP_map, hTurn, ← List.countP_map, List.map_take,
    List.zipIdx_map_fst]

/-- The next final of a window continues the numbering. -/
theorem Numbered.window {base sent rest : List EngineSegment} {final : EngineSegment} {stop : Nat}
    (h : Numbered options (base ++ sent)) (hRun : run.Follows base)
    (hFinals : readSegments options run segments 0 stop = sent ++ final :: rest) :
    Numbered options (base ++ sent ++ [final]) := by
  have hSent : sent = readSegments options run segments 0 (min sent.length stop) := by
    have hTake := congrArg (List.take sent.length) hFinals
    rw [List.take_left, readSegments_zero, ← List.map_take, List.take_take] at hTake
    exact hTake.symm
  have hFinal : ∃ segment, final = readSegment options run segments sent.length segment := by
    have hGet := congrArg (fun finals => finals[sent.length]?) hFinals
    rw [readSegments_zero] at hGet
    simp only [List.getElem?_map, List.getElem?_append_right (le_refl sent.length), Nat.sub_self,
      List.getElem?_cons_zero] at hGet
    obtain ⟨⟨segment, i⟩, hEntry, hRead⟩ := Option.map_eq_some_iff.mp hGet
    rw [List.getElem?_take] at hEntry
    split at hEntry
    · rw [List.getElem?_zipIdx] at hEntry
      obtain ⟨_, -, hPair⟩ := Option.map_eq_some_iff.mp hEntry
      obtain ⟨rfl, rfl⟩ := Prod.mk.inj hPair
      exact ⟨_, by rw [← hRead, Nat.zero_add]⟩
    · cases hEntry
  obtain ⟨segment, rfl⟩ := hFinal
  have hLength : sent.length ≤ stop := by
    have hCount := congrArg List.length hSent
    have hBound : (readSegments options run segments 0 (min sent.length stop)).length ≤
        min sent.length stop := by
      rw [readSegments_zero, List.length_map, List.length_take]
      exact Nat.min_le_left _ _
    omega
  rw [Nat.min_eq_left hLength] at hSent
  refine h.snoc ?_ ?_
  · rw [List.length_append, UInt32.ofNat_add, ← hRun.1]
    rfl
  · cases hDiarize : options.diarize with
    | false => simp [readSegment, speakerLabel, hDiarize]
    | true =>
      have hTurns := @turns_readSegments options run segments hDiarize sent.length
      rw [← hSent] at hTurns
      rw [turns_append, hTurns, UInt32.ofNat_add, ← hRun.2]
      simp [readSegment, speakerLabel, hDiarize]

end Window

section Hosts

variable {ι γ σ ε : Type} {ρ : ι → Type}

/-- A host that knows which finals have gone out: `I` says so at any time, `J` after a stop
was not seen and until the next read. -/
structure Tracks (C : Contract ι ρ γ) (host : Host (Routine ι ρ σ ε)) (options : EngineOptions)
    (E : ε → σ → γ → Prop) (I J : List EngineSegment → σ → γ → Prop) : Prop where
  weaken : ∀ {finals s g}, J finals s g → I finals s g
  read : ∀ asked finals, Triple C (J finals) (host.read asked) (fun _ => I finals) E
  stop : ∀ finals, Triple C (I finals) host.stopRequested
    (fun stop s g => if stop then I finals s g else J finals s g) E
  poll : ∀ finals, Triple C (J finals) host.stopRequested (fun _ => J finals) E
  whisper : ∀ run buffer finals, Triple C (J finals) (host.whisper run buffer) (fun _ => J finals) E
  preview : ∀ segment finals, Triple C (J finals) (host.sink segment false) (fun _ => J finals) E
  commit : ∀ segment finals, Numbered options (finals ++ [segment]) →
    Triple C (J finals) (host.sink segment true) (fun _ => J (finals ++ [segment])) E
  throw : ∀ error finals, Triple C (I finals) (host.throw error) (fun _ _ _ => False) E
  wait : ∀ finals, Triple C (I finals) host.wait (fun _ _ _ => False) E

/-- What a loop has counted. -/
structure Loop.Counted (options : EngineOptions) (loop : Loop) (finals : List EngineSegment) :
    Prop where
  numbered : Numbered options finals
  follows : loop.run.Follows finals
  counts : loop.result.Counts finals
  running : loop.result.aborted = false

theorem startLoop_counted (options : EngineOptions) : startLoop.Counted options [] :=
  ⟨.nil options, ⟨rfl, rfl⟩, ⟨rfl, rfl⟩, rfl⟩

variable {options : EngineOptions} {loop : Loop} {finals : List EngineSegment}

theorem setLanguage_counts {result : EngineResult} (language : Option Bytes)
    (h : result.Counts finals) : (setLanguage result language).Counts finals := by
  unfold setLanguage
  split
  · exact h
  · exact h

theorem setLanguage_aborted (result : EngineResult) (language : Option Bytes) :
    (setLanguage result language).aborted = result.aborted := by
  unfold setLanguage
  split <;> rfl

theorem length_readSegments (run : RunState) (segments : List WhisperSegment) {stop : Nat}
    (h : stop ≤ segments.length) : (readSegments options run segments 0 stop).length = stop := by
  rw [readSegments_zero, List.length_map, List.length_take, List.length_zipIdx]
  exact Nat.min_eq_left h

theorem cutWindow_finalize_le (segments : Nat) (lastWindow : Bool) (windowMs lastStartMs : UInt64) :
    (cutWindow segments lastWindow windowMs lastStartMs).finalize ≤ segments := by
  unfold cutWindow
  split
  · exact Nat.zero_le _
  · split
    · exact Nat.sub_le _ _
    · exact le_refl _

/-- The next window follows the finals of this one. -/
theorem Loop.Counted.carry {segments : List WhisperSegment} {result : EngineResult}
    (h : loop.Counted options finals)
    (hNumbered : Numbered options (finals ++ loop.finals options segments))
    (hCounts : result.Counts (finals ++ loop.finals options segments))
    (hRunning : result.aborted = false) :
    (Transcriber.carry loop (loop.finals options segments) (loop.cut segments) result).Counted
      options (finals ++ loop.finals options segments) := by
  refine ⟨hNumbered, ⟨?_, ?_⟩, hCounts, hRunning⟩
  · have hLength : (loop.finals options segments).length = (loop.cut segments).finalize :=
      length_readSegments loop.run segments (cutWindow_finalize_le _ _ _ _)
    rw [List.length_append, hLength, UInt32.ofNat_add, ← h.follows.1]
    rfl
  · rw [turns_append, UInt32.ofNat_add, ← h.follows.2]
    rfl

variable {C : Contract ι ρ γ} {host : Host (Routine ι ρ σ ε)} {E : ε → σ → γ → Prop}
  {I J : List EngineSegment → σ → γ → Prop}

/-- Under a host that tracks the finals the loop always knows how many there are. -/
def Tracks.plan (h : Tracks C host options E I J) : Plan C host options E where
  head _ loop s g := ∃ finals, loop.Counted options finals ∧ I finals s g
  ready _ loop s g := ∃ finals, loop.Counted options finals ∧ J finals s g
  busy _ loop _ _ run s g :=
    run = { loop.run with abort := run.abort } ∧
      ∃ finals, loop.Counted options finals ∧ J finals s g
  emitting _ loop segments rest result s g :=
    ∃ finals sent, loop.Counted options finals ∧ loop.finals options segments = sent ++ rest ∧
      Numbered options (finals ++ sent) ∧ result.Counts (finals ++ sent) ∧
      result.aborted = false ∧ J (finals ++ sent) s g
  failing s g := ∃ finals, I finals s g
  done result s g := ∃ finals, I finals s g ∧ (result.aborted = false → result.Counts finals)
  wait loop := by
    rintro s g ⟨finals, -, hI⟩
    exact ((h.wait finals).post fun _ _ _ hFalse => hFalse.elim) s g hI
  throw error := by
    rintro s g ⟨finals, hI⟩
    exact ((h.throw error finals).post fun _ _ _ hFalse => hFalse.elim) s g hI
  aborted := by
    rintro n loop s g - ⟨finals, -, hI⟩
    exact ⟨finals, hI, fun hFalse => nomatch hFalse⟩
  stop n loop := by
    rintro s g ⟨finals, hCounted, hI⟩
    refine ((h.stop finals).post fun stop s' g' hStop => ?_) s g hI
    cases stop with
    | true => exact ⟨finals, hStop, fun hFalse => nomatch hFalse⟩
    | false => exact ⟨finals, hCounted, hStop⟩
  finished := by
    rintro n loop s g ⟨finals, hCounted, hI⟩ - -
    exact ⟨finals, hI, fun _ => hCounted.counts⟩
  read n loop _ := by
    rintro s g ⟨finals, hCounted, hJ⟩
    refine ((h.read _ finals).post fun got s' g' hI => ?_) s g hJ
    have hKept : ∀ buffer consumed sourceDone, Loop.Counted options
        ⟨loop.run, buffer, consumed, sourceDone, loop.result⟩ finals := fun _ _ _ =>
      ⟨hCounted.numbered, hCounted.follows, hCounted.counts, hCounted.running⟩
    split
    · exact ⟨finals, hKept _ _ _, hI⟩
    · split
      · exact ⟨finals, hI⟩
      · exact ⟨finals, hKept _ _ _, hI⟩
  call n loop _ _ := by
    rintro s g ⟨finals, hCounted, hJ⟩
    refine ((h.whisper _ _ finals).post fun whisper s' g' hJ' => ?_) s g hJ
    exact ⟨rfl, finals, ⟨hCounted.numbered, hCounted.follows, hCounted.counts, hCounted.running⟩, hJ'⟩
  report := fun hBusy => hBusy
  sink n loop segment segments whisper run := by
    rintro s g ⟨hRun, finals, hCounted, hJ⟩
    refine ((h.preview segment finals).post fun ok s' g' hJ' => ?_) s g hJ
    refine ⟨?_, finals, hCounted, hJ'⟩
    rw [hRun]
    cases ok <;> rfl
  polled := fun _ hBusy => hBusy
  poll n loop next run _ := by
    rintro s g ⟨hRun, finals, hCounted, hJ⟩
    exact ((h.poll finals).post fun stop s' g' hJ' => ⟨hRun, finals, hCounted, hJ'⟩) s g hJ
  given := by
    rintro n loop code segments language run s g - ⟨-, finals, -, hJ⟩
    exact ⟨finals, h.weaken hJ, fun hFalse => nomatch hFalse⟩
  returned n loop code segments language run _ := by
    rintro s g ⟨hRun, finals, hCounted, hJ⟩
    refine ((h.poll finals).post fun stop s' g' hJ' => ?_) s g hJ
    cases stop with
    | true => exact ⟨finals, h.weaken hJ', fun hFalse => nomatch hFalse⟩
    | false =>
      by_cases hCode : code ≠ 0
      · simp only [Bool.false_eq_true, if_false, if_pos hCode]
        exact ⟨finals, h.weaken hJ'⟩
      · simp only [Bool.false_eq_true, if_false, if_neg hCode]
        have hFollows : run.Follows finals := by
          rw [hRun]
          exact hCounted.follows
        have hCounts := setLanguage_counts language hCounted.counts
        have hRunning := (setLanguage_aborted loop.result language).trans hCounted.running
        have hNumbered : Numbered options (finals ++ []) := by
          rw [List.append_nil]
          exact hCounted.numbered
        exact ⟨finals, [], ⟨hCounted.numbered, hFollows, hCounts, hRunning⟩, rfl, hNumbered,
          by rw [List.append_nil]; exact hCounts, hRunning, by rw [List.append_nil]; exact hJ'⟩
  emit n loop segments final rest result := by
    rintro s g ⟨finals, sent, hCounted, hFinals, hNumbered, hCounts, hRunning, hJ⟩
    have hNext := hNumbered.window hCounted.follows hFinals
    refine ((h.commit final _ hNext).post fun ok s' g' hJ' => ?_) s g hJ
    cases ok with
    | true =>
      rw [List.append_assoc] at hNext hJ'
      have hMore := hCounts.snoc final
      rw [List.append_assoc] at hMore
      refine ⟨finals, sent ++ [final], hCounted, ?_, hNext, hMore, hRunning, hJ'⟩
      rw [hFinals, List.append_assoc, List.singleton_append]
    | false => exact ⟨_, h.weaken hJ', fun hFalse => nomatch hFalse⟩
  emitted := by
    rintro n loop segments result s g
      ⟨finals, sent, hCounted, hFinals, hNumbered, hCounts, hRunning, hJ⟩
    rw [List.append_nil] at hFinals
    subst hFinals
    refine ⟨hRunning, ?_⟩
    split
    · exact ⟨_, h.weaken hJ, fun _ => hCounts⟩
    · exact ⟨_, hCounted.carry hNumbered hCounts hRunning, h.weaken hJ⟩

/-- A run under a host that tracks the finals: if it completes, it has counted them. -/
theorem Tracks.run_triple (h : Tracks C host options E I J) (n : Nat) :
    Triple C (I []) (run host options n)
      (fun result s g => ∃ finals, I finals s g ∧ (result.aborted = false → result.Counts finals))
      E :=
  (h.plan.run_triple n).pre fun _ _ hI => ⟨[], startLoop_counted options, hI⟩

end Hosts

end GrpcAsr.Asr
