import GrpcAsr.Library.History
import GrpcAsr.Media.Decoder
import GrpcAsr.Media.SourceTimeline

/-!
# The timeline of decoded audio

What the frames and the resampler's answers alone say about a track: its samples, and the
runs of them that begin at its first timestamp and at every jump. The chunks of the decoder
cut that timeline into numbered pieces and stamp each with the run it lies in.
-/

namespace GrpcAsr.Media

open Emitting

set_option autoImplicit false

/-- The samples from one origin on, up to the next one. -/
structure AudioRun where
  sample : Nat
  originUs : Int
  jump : Bool
  deriving DecidableEq

structure AudioTimeline where
  opened : Bool
  nextUs : Option Int
  output : List Sample
  runs : List AudioRun

def drained : FlushReplies → List Sample
  | [] => []
  | .error _ :: _ => []
  | .ok samples :: replies => if samples = [] then [] else samples ++ drained replies

def FrameReplies.samples (replies : FrameReplies) : List Sample :=
  match replies.resampled with
  | .ok samples => samples
  | .error _ => []

namespace AudioTimeline

def empty : AudioTimeline := ⟨false, none, [], []⟩

def append (t : AudioTimeline) (samples : List Sample) : AudioTimeline :=
  { t with output := t.output ++ samples }

def start (t : AudioTimeline) (originUs : Int) (jump : Bool) : AudioTimeline :=
  { t with runs := t.runs ++ [⟨t.output.length, originUs, jump⟩] }

/-- A timestamp more than 2000 microseconds away from where the frames before it end. -/
def leaps (t : AudioTimeline) (us : Int) : Bool := t.nextUs.any fun next => 2000 < |us - next|

def place (env : DecodeEnv) (track : Nat) (t : AudioTimeline) (frame : DecodedFrame)
    (flush : FlushReplies) : AudioTimeline :=
  let duration := env.duration frame.nbSamples frame.sampleRate
  match env.timestamp track frame with
  | none => { t with nextUs := t.nextUs.map fun next => satAdd64 next duration }
  | some us =>
    let t' :=
      if t.leaps us then (t.append (drained flush)).start us true
      else if t.runs = [] then t.start us false
      else t
    { t' with nextUs := some (satAdd64 us duration) }

def call (env : DecodeEnv) (track : Nat) (t : AudioTimeline) : DecodeCall → AudioTimeline
  | .frame frame replies =>
    ({ t with opened := true }.place env track frame replies.flush).append replies.samples
  | .drain replies => if t.opened then t.append (drained replies) else t

def ofCalls (env : DecodeEnv) (track : Nat) (calls : List DecodeCall) : AudioTimeline :=
  calls.foldl (call env track) empty

/-- A later timeline has more output, and its new runs begin behind the old output. -/
structure Extends (t t' : AudioTimeline) : Prop where
  output : t.output <+: t'.output
  runs : ∃ later, t'.runs = t.runs ++ later ∧ ∀ run ∈ later, t.output.length ≤ run.sample

theorem Extends.refl (t : AudioTimeline) : t.Extends t :=
  ⟨List.prefix_refl _, [], (List.append_nil _).symm, fun _ hNone => nomatch hNone⟩

theorem Extends.trans {t t' t'' : AudioTimeline} (h : t.Extends t') (h' : t'.Extends t'') :
    t.Extends t'' := by
  obtain ⟨hOutput, later, hRuns, hLater⟩ := h
  obtain ⟨hOutput', later', hRuns', hLater'⟩ := h'
  refine ⟨hOutput.trans hOutput', later ++ later', by rw [hRuns', hRuns, List.append_assoc], ?_⟩
  intro run hRun
  rcases List.mem_append.mp hRun with hFirst | hSecond
  · exact hLater run hFirst
  · exact Nat.le_trans hOutput.length_le (hLater' run hSecond)

theorem extends_append (t : AudioTimeline) (samples : List Sample) : t.Extends (t.append samples) :=
  ⟨List.prefix_append _ _, [], (List.append_nil _).symm, fun _ hNone => nomatch hNone⟩

theorem extends_start (t : AudioTimeline) (originUs : Int) (jump : Bool) :
    t.Extends (t.start originUs jump) := by
  refine ⟨List.prefix_refl _, [_], rfl, fun run hRun => ?_⟩
  rw [List.mem_singleton.mp hRun]

theorem extends_next (t : AudioTimeline) (opened : Bool) (nextUs : Option Int) :
    t.Extends { t with opened := opened, nextUs := nextUs } :=
  ⟨List.prefix_refl _, [], (List.append_nil _).symm, fun _ hNone => nomatch hNone⟩

section Calls

variable (env : DecodeEnv) (track : Nat)

theorem extends_place (t : AudioTimeline) (frame : DecodedFrame) (flush : FlushReplies) :
    t.Extends (t.place env track frame flush) := by
  unfold place
  dsimp only
  cases env.timestamp track frame with
  | none => exact t.extends_next t.opened _
  | some us =>
    dsimp only
    split
    · exact ((t.extends_append _).trans (extends_start _ us true)).trans (extends_next _ _ _)
    · split
      · exact (t.extends_start us false).trans (extends_next _ _ _)
      · exact t.extends_next t.opened _

theorem extends_call (t : AudioTimeline) (call : DecodeCall) : t.Extends (t.call env track call) := by
  cases call with
  | frame frame replies =>
    exact ((t.extends_next true t.nextUs).trans (extends_place env track _ frame replies.flush)).trans
      (extends_append _ _)
  | drain replies =>
    rw [AudioTimeline.call]
    split
    · exact t.extends_append _
    · exact .refl t

theorem extends_calls (t : AudioTimeline) (calls : List DecodeCall) :
    t.Extends (calls.foldl (call env track) t) := by
  induction calls generalizing t with
  | nil => exact .refl t
  | cons call calls ih => exact (t.extends_call env track call).trans (ih _)

end Calls

end AudioTimeline

namespace AudioChunk

/-- The chunk's place among the chunks of its track, as its consumer requires it. -/
structure Follows (track : Nat) (chunk : AudioChunk) (before : List AudioChunk) : Prop where
  track : chunk.trackId = track
  number : chunk.chunkNumber = before.length + 1
  first : chunk.firstSample = (audioOf before).length
  format : chunk.sampleRate = 16000 ∧ chunk.channels = 1 ∧ chunk.pcmF32le.length % 4 = 0
  size : 0 < (decodePcm chunk.pcmF32le).length ∧ (decodePcm chunk.pcmF32le).length ≤ 4096

/-- A chunk is flagged where a jump's run begins, and its time counts from the origin of
the last run that begins up to it. -/
structure Stamped (env : DecodeEnv) (runs : List AudioRun) (chunk : AudioChunk) : Prop where
  discontinuity : chunk.discontinuity = true ↔
    ∃ run ∈ runs, run.jump = true ∧ run.sample = chunk.firstSample
  presentation : chunk.presentationTimeUs =
    (runs.filter fun run => run.sample ≤ chunk.firstSample).getLast?.map fun run =>
      satAdd64 run.originUs (env.duration (chunk.firstSample - run.sample : Nat) kOutputRate)

theorem Stamped.extend {env : DecodeEnv} {runs later : List AudioRun} {chunk : AudioChunk}
    (h : chunk.Stamped env runs) (hLater : ∀ run ∈ later, chunk.firstSample < run.sample) :
    chunk.Stamped env (runs ++ later) := by
  constructor
  · rw [h.discontinuity]
    constructor
    · rintro ⟨run, hRun, hJump⟩
      exact ⟨run, List.mem_append_left later hRun, hJump⟩
    · rintro ⟨run, hRun, hJump, hFirst⟩
      rcases List.mem_append.mp hRun with hOld | hNew
      · exact ⟨run, hOld, hJump, hFirst⟩
      · exact absurd hFirst (Nat.ne_of_gt (hLater run hNew))
  · have hNone : later.filter (fun run => decide (run.sample ≤ chunk.firstSample)) = [] := by
      apply List.filter_eq_nil_iff.mpr
      intro run hRun
      simpa using hLater run hRun
    rw [List.filter_append, hNone, List.append_nil, h.presentation]

end AudioChunk

/-- Chunks that cut a timeline, up to where they end. -/
structure AudioTimeline.CutInto (env : DecodeEnv) (track : Nat) (t : AudioTimeline) (chunks : List AudioChunk) :
    Prop where
  follows : ∀ before chunk after, chunks = before ++ chunk :: after → chunk.Follows track before
  output : audioOf chunks <+: t.output
  stamped : ∀ chunk ∈ chunks, chunk.Stamped env t.runs
  aligned : ∀ run ∈ t.runs, run.sample < (audioOf chunks).length →
    ∃ chunk ∈ chunks, chunk.firstSample = run.sample

namespace AudioTimeline.CutInto

variable {env : DecodeEnv} {track : Nat} {t t' : AudioTimeline} {chunks : List AudioChunk}

theorem nil (env : DecodeEnv) (track : Nat) (t : AudioTimeline) : t.CutInto env track [] where
  follows := by
    intro before chunk after hNil
    simp at hNil
  output := List.nil_prefix
  stamped := fun _ hNone => nomatch hNone
  aligned := fun _ _ hShort => absurd hShort (Nat.not_lt_zero _)

theorem inside (h : t.CutInto env track chunks) {chunk : AudioChunk} (hChunk : chunk ∈ chunks) :
    chunk.firstSample < (audioOf chunks).length := by
  obtain ⟨before, after, rfl⟩ := List.append_of_mem hChunk
  have hFollows := h.follows before chunk after rfl
  have hSize := hFollows.size.1
  rw [hFollows.first]
  simp only [audioOf, List.flatMap_append, List.flatMap_cons, List.length_append]
  omega

theorem extend (h : t.CutInto env track chunks) (hMore : t.Extends t') : t'.CutInto env track chunks := by
  obtain ⟨later, hRuns, hLater⟩ := hMore.runs
  refine ⟨h.follows, h.output.trans hMore.output, ?_, ?_⟩
  · intro chunk hChunk
    rw [hRuns]
    apply (h.stamped chunk hChunk).extend
    intro run hRun
    exact Nat.lt_of_lt_of_le (h.inside hChunk)
      (Nat.le_trans h.output.length_le (hLater run hRun))
  · intro run hRun hShort
    rw [hRuns] at hRun
    rcases List.mem_append.mp hRun with hOld | hNew
    · exact h.aligned run hOld hShort
    · exact absurd hShort (Nat.not_lt.mpr (Nat.le_trans h.output.length_le (hLater run hNew)))

end AudioTimeline.CutInto

/-- After a call: the state of a track stands at the end of its timeline. -/
structure AudioState.InStep (env : DecodeEnv) (track : Nat) (t : AudioTimeline) (s : AudioState)
    (chunks : List AudioChunk) : Prop where
  cut : t.CutInto env track chunks
  whole : audioOf chunks = t.output
  resampler : s.resampler = t.opened
  samples : s.samples = t.output.length
  chunks : s.chunks = chunks.length
  next : s.nextInputUs = t.nextUs
  origin : s.originUs = t.runs.getLast?.map AudioRun.originUs
  originSample : ∀ run, t.runs.getLast? = some run → s.originSample = run.sample
  begun : ∀ run ∈ t.runs, run.sample ≤ t.output.length
  pending : s.discontinuity = true ↔ ∃ run ∈ t.runs, run.jump = true ∧ run.sample = t.output.length

namespace AudioState.InStep

variable {env : DecodeEnv} {track : Nat} {t t' : AudioTimeline} {s : AudioState}
  {chunks : List AudioChunk}

theorem start (env : DecodeEnv) (track : Nat) : InStep env track .empty default [] where
  cut := .nil env track _
  whole := rfl
  resampler := rfl
  samples := rfl
  chunks := rfl
  next := rfl
  origin := rfl
  originSample := fun _ hNone => nomatch hNone
  begun := fun _ hNone => nomatch hNone
  pending := by
    constructor
    · intro hFalse
      cases hFalse
    · rintro ⟨run, hNone, -⟩
      cases hNone

theorem chunk_follows (h : InStep env track t s chunks) {piece : List Sample}
    (hPiece : piece ≠ [] ∧ piece.length ≤ 4096) : (s.chunk env track piece).Follows track chunks where
  track := rfl
  number := by rw [AudioState.chunk, h.chunks]
  first := by rw [AudioState.chunk, h.samples, h.whole]
  format := ⟨rfl, rfl, by rw [AudioState.chunk, encodePcm_length]; omega⟩
  size := by
    rw [AudioState.chunk, decodePcm_encodePcm]
    exact ⟨List.length_pos_iff.mpr hPiece.1, hPiece.2⟩

theorem chunk_stamped (h : InStep env track t s chunks) (piece : List Sample) :
    (s.chunk env track piece).Stamped env t.runs := by
  have hAll : t.runs.filter (fun run => decide (run.sample ≤ s.samples)) = t.runs := by
    apply List.filter_eq_self.mpr
    intro run hRun
    simpa [h.samples] using h.begun run hRun
  constructor
  · simp only [AudioState.chunk, h.samples]
    exact h.pending
  · simp only [AudioState.chunk, presentationTime, h.origin, hAll]
    cases hLast : t.runs.getLast? with
    | none => rfl
    | some run => simp only [Option.map_some, h.originSample run hLast]

/-- One piece of a buffer: its chunk ends the timeline that the piece prolongs. -/
theorem emitChunk (h : InStep env track t s chunks) {piece : List Sample}
    (hPiece : piece ≠ [] ∧ piece.length ≤ 4096) :
    Ensures chunks (s.emitChunk env track piece) (InStep env track (t.append piece))
      ((t.append piece).CutInto env track) := by
  unfold AudioState.emitChunk
  cases hLimit : limit _ _ with
  | error e => exact .throw (h.cut.extend (t.extends_append piece))
  | ok _ =>
    have hFollows := h.chunk_follows hPiece
    have hStamped := h.chunk_stamped piece
    have hAudio : audioOf (chunks ++ [s.chunk env track piece]) = (t.append piece).output := by
      rw [audioOf_snoc, h.whole, AudioState.chunk, decodePcm_encodePcm]
      rfl
    have hCut : (t.append piece).CutInto env track (chunks ++ [s.chunk env track piece]) := by
      refine ⟨?_, hAudio ▸ List.prefix_refl _, ?_, ?_⟩
      · intro before chunk after hSplit
        rcases History.snoc_eq_append_cons.mp hSplit with ⟨rfl, rfl, -⟩ | ⟨rest, -, hOld⟩
        · exact hFollows
        · exact h.cut.follows before chunk rest hOld
      · intro chunk hChunk
        rcases List.mem_append.mp hChunk with hOld | hNew
        · exact h.cut.stamped chunk hOld
        · rw [List.mem_singleton.mp hNew]
          exact hStamped
      · intro run hRun _
        rcases Nat.lt_or_eq_of_le (h.begun run hRun) with hEarlier | hHere
        · obtain ⟨chunk, hChunk, hFirst⟩ := h.cut.aligned run hRun (by rwa [h.whole])
          exact ⟨chunk, List.mem_append_left _ hChunk, hFirst⟩
        · exact ⟨_, List.mem_append_right _ (List.mem_singleton_self _),
            h.samples.trans hHere.symm⟩
    have hLonger : t.output.length < (t.append piece).output.length := by
      have hPos := List.length_pos_iff.mpr hPiece.1
      simp only [AudioTimeline.append, List.length_append]
      omega
    refine ⟨fun _ => ?_, fun _ => hCut⟩
    exact
      { cut := hCut
        whole := hAudio
        resampler := h.resampler
        samples := by simp only [AudioTimeline.append, List.length_append, h.samples]
        chunks := by simp only [List.length_append, List.length_singleton, h.chunks]
        next := h.next
        origin := h.origin
        originSample := h.originSample
        begun := fun run hRun => Nat.le_trans (h.begun run hRun) (Nat.le_of_lt hLonger)
        pending := by
          constructor
          · intro hFalse
            cases hFalse
          · rintro ⟨run, hRun, -, hSample⟩
            have hBegun := h.begun run hRun
            omega }

end AudioState.InStep

theorem pieces_flatten (samples : List Sample) : (pieces samples).flatten = samples := by
  induction samples using pieces.induct with
  | case1 => simp [pieces]
  | case2 sample samples ih => simp [pieces, ih]

theorem pieces_size {samples piece : List Sample} (hPiece : piece ∈ pieces samples) :
    piece ≠ [] ∧ piece.length ≤ 4096 := by
  induction samples using pieces.induct with
  | case1 => simp [pieces] at hPiece
  | case2 sample samples ih =>
    rw [pieces] at hPiece
    rcases List.mem_cons.mp hPiece with rfl | hRest
    · constructor
      · exact List.cons_ne_nil _ _
      · rw [List.length_cons, List.length_take]
        omega
    · exact ih hRest

theorem AudioTimeline.append_append (t : AudioTimeline) (a b : List Sample) :
    (t.append a).append b = t.append (a ++ b) := by
  simp only [append, List.append_assoc]

theorem AudioTimeline.append_nil (t : AudioTimeline) : t.append [] = t := by
  simp only [append, List.append_nil]

namespace AudioState.InStep

variable {env : DecodeEnv} {track : Nat} {t t' : AudioTimeline} {s : AudioState}
  {chunks : List AudioChunk}

theorem emitAudio (h : InStep env track t s chunks) (samples : List Sample) :
    Ensures chunks (s.emitAudio env track samples) (InStep env track (t.append samples))
      ((t.append samples).CutInto env track) := by
  have hLoop : Ensures chunks (s.emitAudio env track samples)
      (InStep env track (t.append (pieces samples).flatten)) ((t.append samples).CutInto env track) := by
    apply Ensures.runAll (P := fun before s out => InStep env track (t.append before.flatten) s out)
    · intro before piece after s out hSplit hBefore
      have hWhole := pieces_flatten samples
      rw [hSplit, List.flatten_append, List.flatten_cons, ← List.append_assoc] at hWhole
      have hStep := hBefore.emitChunk
        (pieces_size (hSplit ▸ List.mem_append_right before List.mem_cons_self))
      rw [AudioTimeline.append_append] at hStep
      refine (hStep.imp fun s' out' h' => ?_).imp_failed fun out' hCut => ?_
      · rwa [List.flatten_append, List.flatten_singleton]
      · rw [← hWhole, ← AudioTimeline.append_append]
        exact hCut.extend (AudioTimeline.extends_append _ _)
    · rw [List.flatten_nil, AudioTimeline.append_nil]
      exact h
  rwa [pieces_flatten] at hLoop

theorem drain (h : InStep env track t s chunks) (replies : FlushReplies) :
    Ensures chunks (s.drain env track replies) (InStep env track (t.append (drained replies)))
      ((t.append (drained replies)).CutInto env track) := by
  induction replies generalizing t s chunks with
  | nil =>
    rw [drained, AudioTimeline.append_nil]
    exact .return_ h
  | cons reply replies ih =>
    cases reply with
    | error e =>
      rw [drained, AudioTimeline.append_nil]
      exact .throw h.cut
    | ok samples =>
      rw [AudioState.drain, drained]
      split
      · rw [AudioTimeline.append_nil]
        exact .return_ h
      · rw [← AudioTimeline.append_append]
        refine Ensures.next ?_ fun s' out' h' => ih h'
        exact (h.emitAudio samples).imp_failed fun out' hCut =>
          hCut.extend (AudioTimeline.extends_append _ _)

theorem flushResampler (h : InStep env track t s chunks) (replies : FlushReplies) :
    Ensures chunks (s.flushResampler env track replies)
      (InStep env track (if t.opened then t.append (drained replies) else t))
      ((if t.opened then t.append (drained replies) else t).CutInto env track) := by
  rw [AudioState.flushResampler, h.resampler]
  split
  · exact h.drain replies
  · exact .return_ h

/-- A run begins where the timeline stands; one that begins by a jump leaves its flag pending. -/
theorem begin (h : InStep env track t s chunks) (us : Int) (jump : Bool) :
    InStep env track (t.start us jump)
      { s with
        originUs := some us
        originSample := s.samples
        discontinuity := s.discontinuity || jump } chunks where
  cut := h.cut.extend (t.extends_start us jump)
  whole := h.whole
  resampler := h.resampler
  samples := h.samples
  chunks := h.chunks
  next := h.next
  origin := by rw [AudioTimeline.start, List.getLast?_concat, Option.map_some]
  originSample := by
    intro run hLast
    rw [AudioTimeline.start, List.getLast?_concat] at hLast
    cases hLast
    exact h.samples
  begun := by
    intro run hRun
    rcases List.mem_append.mp hRun with hOld | hNew
    · exact h.begun run hOld
    · rw [List.mem_singleton.mp hNew]
      exact Nat.le_refl _
  pending := by
    rw [Bool.or_eq_true, h.pending]
    constructor
    · rintro (⟨run, hRun, hJump⟩ | hJump)
      · exact ⟨run, List.mem_append_left _ hRun, hJump⟩
      · exact ⟨_, List.mem_append_right _ (List.mem_singleton_self _), hJump, rfl⟩
    · rintro ⟨run, hRun, hJump, hSample⟩
      rcases List.mem_append.mp hRun with hOld | hNew
      · exact Or.inl ⟨run, hOld, hJump, hSample⟩
      · rw [List.mem_singleton.mp hNew] at hJump
        exact Or.inr hJump

theorem setNext (h : InStep env track t s chunks) (nextUs : Option Int) :
    InStep env track { t with nextUs := nextUs } { s with nextInputUs := nextUs } chunks :=
  { h with
    cut := h.cut.extend (t.extends_next t.opened nextUs)
    next := rfl }

end AudioState.InStep

theorem AudioState.prepare_ok {env : DecodeEnv} {track : Nat} {s s' : AudioState} {frame : DecodedFrame}
    {replies : FrameReplies} (h : s.prepare env frame replies = .ok s') :
    s'.inputRate = frame.sampleRate ∧ ∀ t chunks, InStep env track t s chunks →
      InStep env track { t with opened := true } s' chunks := by
  unfold prepare at h
  obtain ⟨_, -, h⟩ := bind_eq_ok h
  obtain ⟨_, -, h⟩ := bind_eq_ok h
  dsimp only at h
  split at h
  · obtain ⟨_, -, h⟩ := bind_eq_ok h
    obtain ⟨_, -, h⟩ := bind_eq_ok h
    obtain ⟨_, -, h⟩ := bind_eq_ok h
    cases h
    exact ⟨rfl, fun t chunks hStep =>
      { hStep with cut := hStep.cut.extend (t.extends_next true t.nextUs), resampler := rfl }⟩
  · rename_i hOpen
    split at h
    · cases h
    · rename_i hSame
      cases h
      simp only [not_or, not_not] at hSame
      exact ⟨hSame.1, fun t chunks hStep =>
        { hStep with
          cut := hStep.cut.extend (t.extends_next true t.nextUs)
          resampler := by simpa using hOpen }⟩

namespace AudioState.InStep

variable {env : DecodeEnv} {track : Nat} {t : AudioTimeline} {s : AudioState}
  {chunks : List AudioChunk}

theorem jumped (h : InStep env track t s chunks) (us : Int) : s.jumped us = t.leaps us := by
  rw [AudioState.jumped, h.next, AudioTimeline.leaps]
  cases t.nextUs with
  | none => rfl
  | some next =>
    rw [Option.any_some, Bool.eq_iff_iff]
    simp only [Bool.or_eq_true, decide_eq_true_eq, lt_abs]
    omega

theorem reset (h : InStep env track t s chunks) (hOpen : t.opened = true) (replies : FrameReplies) :
    Ensures chunks (s.reset env track replies)
      (fun s' out => ∃ flushed, InStep env track (t.append (drained replies.flush)) flushed out ∧
        s' = { flushed with discontinuity := true })
      ((t.append (drained replies.flush)).CutInto env track) := by
  have hFlush := h.flushResampler replies.flush
  rw [if_pos hOpen] at hFlush
  apply hFlush.next
  intro flushed out h'
  split
  · exact .throw h'.cut
  · exact .return_ ⟨flushed, h', rfl⟩

theorem setOrigin (h : InStep env track t s chunks) (us : Int) :
    InStep env track (if t.runs = [] then t.start us false else t) (s.setOrigin us false) chunks := by
  have hOrigin : s.originUs = none ↔ t.runs = [] := by
    rw [h.origin, Option.map_eq_none_iff, List.getLast?_eq_none_iff]
  rw [AudioState.setOrigin]
  by_cases hNone : t.runs = []
  · rw [if_pos hNone, if_pos (Or.inl (hOrigin.mpr hNone))]
    have hBegun := h.begin us false
    rwa [Bool.or_false] at hBegun
  · rw [if_neg hNone, if_neg (by simp [hOrigin, hNone])]
    exact h

theorem place (h : InStep env track t s chunks) (hOpen : t.opened = true) {frame : DecodedFrame}
    (hRate : s.inputRate = frame.sampleRate) (replies : FrameReplies) :
    Ensures chunks (s.place env track frame replies)
      (InStep env track (t.place env track frame replies.flush))
      ((t.place env track frame replies.flush).CutInto env track) := by
  unfold AudioState.place AudioTimeline.place
  have hDuration : env.duration frame.nbSamples s.inputRate =
      env.duration frame.nbSamples frame.sampleRate := by rw [hRate]
  dsimp only
  rw [hDuration]
  cases env.timestamp track frame with
  | none =>
    dsimp only
    rw [h.next]
    exact .return_ (h.setNext _)
  | some us =>
    dsimp only
    rw [h.jumped us]
    cases hLeap : t.leaps us with
    | true =>
      simp only [if_true]
      have hFlushed := (t.append (drained replies.flush)).extends_start us true
      refine Ensures.next ((h.reset hOpen replies).imp_failed fun out hCut =>
        hCut.extend (hFlushed.trans (AudioTimeline.extends_next _ _ _))) ?_
      rintro s' out ⟨flushed, h', rfl⟩
      rw [AudioState.setOrigin, if_pos (Or.inr rfl)]
      have hBegun := (h'.begin us true).setNext (some (satAdd64 us (env.duration frame.nbSamples frame.sampleRate)))
      rw [Bool.or_true] at hBegun
      exact .return_ hBegun
    | false =>
      simp only [Bool.false_eq_true, if_false]
      rw [Outcome.nil_next]
      exact .return_ ((h.setOrigin us).setNext _)

theorem resample (h : InStep env track t s chunks) (replies : FrameReplies) :
    Ensures chunks (s.resample env track replies) (InStep env track (t.append replies.samples))
      ((t.append replies.samples).CutInto env track) := by
  have hFailed := h.cut.extend (t.extends_append replies.samples)
  unfold AudioState.resample
  split
  · exact .throw hFailed
  · split
    · exact .throw hFailed
    · split
      · exact .throw hFailed
      · rename_i samples hSamples
        have hSame : replies.samples = samples := by rw [FrameReplies.samples, hSamples]
        rw [hSame]
        exact h.emitAudio samples

theorem convert (h : InStep env track t s chunks) (frame : DecodedFrame) (replies : FrameReplies) :
    Ensures chunks (s.convert env track frame replies)
      (InStep env track (t.call env track (.frame frame replies)))
      ((t.call env track (.frame frame replies)).CutInto env track) := by
  unfold AudioState.convert
  cases hPrepare : s.prepare env frame replies with
  | error e => exact .throw (h.cut.extend (t.extends_call env track _))
  | ok s' =>
    obtain ⟨hRate, hStep⟩ := AudioState.prepare_ok hPrepare
    refine Ensures.next (((hStep t chunks h).place rfl hRate replies).imp_failed fun out hCut => ?_) ?_
    · exact hCut.extend (AudioTimeline.extends_append _ _)
    · intro s'' out h'
      exact h'.resample replies

theorem call (h : InStep env track t s chunks) (c : DecodeCall) :
    Ensures chunks (s.call env track c) (InStep env track (t.call env track c))
      ((t.call env track c).CutInto env track) := by
  cases c with
  | frame frame replies => exact h.convert frame replies
  | drain replies => exact h.flushResampler replies

end AudioState.InStep

def callsOf (track : Nat) (calls : List (Nat × DecodeCall)) : List DecodeCall :=
  calls.filterMap fun call => if call.1 = track then some call.2 else none

def chunksOf (track : Nat) (chunks : List AudioChunk) : List AudioChunk :=
  chunks.filter fun chunk => chunk.trackId = track

section Tracks

variable {env : DecodeEnv} {track : Nat}

theorem callsOf_append (calls more : List (Nat × DecodeCall)) :
    callsOf track (calls ++ more) = callsOf track calls ++ callsOf track more :=
  List.filterMap_append

theorem callsOf_self (c : DecodeCall) : callsOf track [(track, c)] = [c] := by
  simp [callsOf]

theorem callsOf_other {other : Nat} (hOther : other ≠ track) (c : DecodeCall) :
    callsOf track [(other, c)] = [] := by
  simp [callsOf, hOther]

theorem chunksOf_append (chunks more : List AudioChunk) :
    chunksOf track (chunks ++ more) = chunksOf track chunks ++ chunksOf track more :=
  List.filter_append ..

theorem AudioTimeline.ofCalls_append (calls more : List DecodeCall) :
    ofCalls env track (calls ++ more) = more.foldl (call env track) (ofCalls env track calls) :=
  List.foldl_append

/-- The chunks of a call on a track are chunks of that track. -/
theorem AudioState.InStep.emitted_track {t : AudioTimeline} {s : AudioState}
    {chunks : List AudioChunk} (h : InStep env track t s chunks) (c : DecodeCall) :
    ∀ chunk ∈ (s.call env track c).emitted, chunk.trackId = track := by
  have hCut : (t.call env track c).CutInto env track (chunks ++ (s.call env track c).emitted) :=
    (h.call c).always fun _ _ hDone => hDone.cut
  intro chunk hChunk
  obtain ⟨before, after, hSplit⟩ := List.append_of_mem (List.mem_append_right chunks hChunk)
  exact (hCut.follows before chunk after hSplit).track

theorem chunksOf_self {chunks : List AudioChunk} (h : ∀ chunk ∈ chunks, chunk.trackId = track) :
    chunksOf track chunks = chunks := by
  apply List.filter_eq_self.mpr
  simpa using h

theorem chunksOf_other {other : Nat} (hOther : other ≠ track) {chunks : List AudioChunk}
    (h : ∀ chunk ∈ chunks, chunk.trackId = other) : chunksOf track chunks = [] := by
  apply List.filter_eq_nil_iff.mpr
  intro chunk hChunk
  simpa [h chunk hChunk] using hOther

/-- Every track is in step with its own calls, whatever the other tracks do. -/
def AudioTracks.InStep (env : DecodeEnv) (calls : List (Nat × DecodeCall)) (tracks : AudioTracks)
    (chunks : List AudioChunk) : Prop :=
  ∀ track, (tracks track).InStep env track (.ofCalls env track (callsOf track calls))
    (chunksOf track chunks)

def CutTracks (env : DecodeEnv) (calls : List (Nat × DecodeCall)) (chunks : List AudioChunk) : Prop :=
  ∀ track, (AudioTimeline.ofCalls env track (callsOf track calls)).CutInto env track
    (chunksOf track chunks)

theorem AudioTracks.InStep.call {calls before after : List (Nat × DecodeCall)} {tracks : AudioTracks}
    {chunks : List AudioChunk} (h : tracks.InStep env before chunks) (call : Nat × DecodeCall)
    (hSplit : calls = before ++ call :: after) :
    Ensures chunks (tracks.call env call) (AudioTracks.InStep env (before ++ [call]))
      (CutTracks env calls) := by
  obtain ⟨active, c⟩ := call
  have hCall := (h active).call c
  have hEmitted := (h active).emitted_track c
  constructor
  · intro hDone track
    rw [callsOf_append, chunksOf_append, AudioTimeline.ofCalls_append]
    by_cases hSame : active = track
    · subst hSame
      rw [callsOf_self, AudioTracks.call]
      dsimp only
      rw [Function.update_self, chunksOf_self hEmitted]
      exact hCall.done hDone
    · rw [callsOf_other hSame, AudioTracks.call]
      dsimp only
      rw [Function.update_of_ne (Ne.symm hSame), chunksOf_other hSame hEmitted, List.append_nil]
      exact h track
  · intro hFailed track
    rw [hSplit, callsOf_append, chunksOf_append, AudioTimeline.ofCalls_append,
      ← List.singleton_append, callsOf_append, List.foldl_append]
    refine AudioTimeline.CutInto.extend ?_ (AudioTimeline.extends_calls env track _ _)
    by_cases hSame : active = track
    · subst hSame
      rw [callsOf_self, AudioTracks.call]
      dsimp only
      rw [chunksOf_self hEmitted]
      exact hCall.failed hFailed
    · rw [callsOf_other hSame, AudioTracks.call]
      dsimp only
      rw [chunksOf_other hSame hEmitted, List.append_nil]
      exact (h track).cut

theorem decodeAudio_inStep (env : DecodeEnv) (calls : List (Nat × DecodeCall)) :
    Ensures [] (decodeAudio env calls) (AudioTracks.InStep env calls) (CutTracks env calls) := by
  apply Ensures.runAll (P := fun before tracks out => AudioTracks.InStep env before tracks out)
  · intro before call after tracks out hSplit hBefore
    exact hBefore.call call hSplit
  · intro track
    exact AudioState.InStep.start env track

end Tracks

namespace Track

variable {D : Detector}

/-- The first checks of a track on a chunk: its format and its place in the sequence. -/
structure Accepts (t : Track D) (chunk : AudioChunk) : Prop where
  format : chunk.sampleRate = 16000 ∧ chunk.channels = 1 ∧ chunk.pcmF32le.length % 4 = 0
  first : chunk.firstSample = t.samples
  number : chunk.chunkNumber = t.chunks + 1

/-- What a track has counted of the audio it took. -/
def Tallied (samples chunks : Nat) (t : Track D) : Prop := t.samples = samples ∧ t.chunks = chunks

variable {samples chunks : Nat} {t : Track D}

theorem Tallied.infer (h : Tallied samples chunks t) (env : TrackEnv) (window : SpeechWindow) :
    Tallied samples chunks (t.infer env window).state := by
  have hReconcile : ∀ (t : Track D) w hypothesis, Tallied samples chunks t →
      Tallied samples chunks (t.reconcile env w hypothesis).state := by
    intro t w hypothesis ht
    unfold Track.reconcile
    split
    · exact ht
    · dsimp only
      split <;> exact ht
  have hReceive : ∀ (t : Track D) hypothesis, Tallied samples chunks t →
      Tallied samples chunks (t.receive env window hypothesis).state := by
    intro t hypothesis ht
    unfold Track.receive
    split
    · exact ht
    · split
      · exact ht
      · dsimp only
        split
        · exact ht
        · exact hReconcile t window _ ht
  unfold Track.infer
  dsimp only
  split
  · exact h
  · exact hReceive _ _ h

theorem Tallied.inferAll (h : Tallied samples chunks t) (env : TrackEnv) {o : ListenOutcome D}
    {out : List TrackAction} :
    Ensures out (t.inferAll env o) (fun t' _ => Tallied samples chunks t') (fun _ => True) := by
  refine Ensures.next (Ensures.runAll (P := fun _ t' _ => Tallied samples chunks t') ?_ h) ?_
  · intro before window after t' actions _ h'
    exact ⟨fun _ => h'.infer env window, fun _ => trivial⟩
  · intro t' actions h'
    cases o.error with
    | none => exact .return_ h'
    | some e => exact .throw trivial

theorem Tallied.cut (h : Tallied samples chunks t) (env : TrackEnv) (chunk : AudioChunk) :
    Ensures [] (t.cut env chunk) (fun t' _ => Tallied samples chunks t') (fun _ => True) := by
  unfold Track.cut
  split
  · exact (h.inferAll env).next fun t' actions h' => .return_ h'
  · exact .return_ h

theorem Tallied.anchorTime (h : Tallied samples chunks t) (chunk : AudioChunk) :
    Tallied samples chunks (t.anchorTime chunk).state := by
  unfold Track.anchorTime
  split
  · split
    · exact h
    · split <;> exact h
  · exact h

/-- A chunk that was taken is counted. -/
theorem Tallied.audio (h : Tallied samples chunks t) {env : TrackEnv} {chunk : AudioChunk}
    (hOk : (t.audio env chunk).error = none) :
    Tallied (samples + (decodePcm chunk.pcmF32le).length) (chunks + 1) (t.audio env chunk).state := by
  have hBody : Ensures []
      (((t.cut env chunk).next fun t => t.anchorTime chunk).next fun t => t.listen env chunk)
      (fun t' _ => Tallied (samples + (decodePcm chunk.pcmF32le).length) (chunks + 1) t')
      (fun _ => True) := by
    refine Ensures.next (Q := fun t' _ => Tallied samples chunks t')
      ((h.cut env chunk).next fun t' actions h' => ?_) fun t' actions h' => ?_
    · exact ⟨fun _ => h'.anchorTime chunk, fun _ => trivial⟩
    · refine (h'.inferAll env).next fun t'' actions h'' => ?_
      exact .return_ ⟨by rw [h''.1], by rw [h''.2]⟩
  unfold Track.audio at hOk ⊢
  split at hOk
  · cases hOk
  · rename_i hFormat
    split at hOk
    · cases hOk
    · rename_i hPlace
      rw [if_neg hFormat, if_neg hPlace]
      exact hBody.done (Option.map_eq_none_iff.mp hOk)

theorem Tallied.run {env : TrackEnv} {taken : List AudioChunk} (h : Tallied 0 0 t)
    (hOk : (runAll (Track.audio env) t taken).error = none) :
    Tallied (audioOf taken).length taken.length (runAll (Track.audio env) t taken).state := by
  have hStep : ∀ done (t' : Track D) chunk (actions : List TrackAction),
      Tallied (audioOf done).length done.length t' → (Track.audio env t' chunk).error = none →
        Tallied (audioOf (done ++ [chunk])).length (done ++ [chunk]).length
          (Track.audio env t' chunk).state := by
    intro done t' chunk actions h' hTaken
    have hCounted := h'.audio hTaken
    rwa [audioOf_snoc, List.length_append, List.length_append, List.length_singleton]
  have hTracks := runAll_tracks (P := fun done t' _ => Tallied (audioOf done).length done.length t')
    hStep taken [] t [] h hOk
  simpa using hTracks

end Track

/-- The nearest whole number to a quotient that is not negative; a tie goes up. -/
def nearest (value divisor : Int) : Int := (2 * value + divisor) / (2 * divisor)

/-- Time conversion is exact to the nearest unit where the result is a signed 64-bit value. -/
def DecodeEnv.Rescales (env : DecodeEnv) : Prop :=
  ∀ (count : Nat) (a b : AVRational), 0 ≤ a.num * b.den → 0 < a.den * b.num →
    nearest (count * (a.num * b.den)) (a.den * b.num) < 2 ^ 63 →
    env.rescaleQ count a b = nearest (count * (a.num * b.den)) (a.den * b.num)

theorem DecodeEnv.Rescales.duration {env : DecodeEnv} (h : env.Rescales) (count : Nat)
    (hRange : ((125 * count + 1) / 2 : Int) < 2 ^ 63) :
    env.duration count kOutputRate = (125 * count + 1) / 2 := by
  have hNearest : nearest (count * (1 * kMicros.den)) (kOutputRate * kMicros.num) =
      (125 * count + 1) / 2 := by
    simp only [nearest, kMicros, kOutputRate]
    omega
  rw [DecodeEnv.duration, h count ⟨1, kOutputRate⟩ kMicros (by decide) (by decide)
    (by rw [hNearest]; exact hRange)]
  exact hNearest

/-- For all calls on all tracks in any order, failed or not: the chunks of a track cut its
timeline, all of it when nothing failed; a track that starts to listen takes each in turn;
and the time stamped on them counts the samples since their origin to the microsecond. -/
theorem decoded_audio_timeline (env : DecodeEnv) (hRescale : env.Rescales)
    (calls : List (Nat × DecodeCall)) (track : Nat) :
    let timeline := AudioTimeline.ofCalls env track (callsOf track calls)
    let chunks := chunksOf track (decodeAudio env calls).emitted
    timeline.CutInto env track chunks ∧
      ((decodeAudio env calls).error = none → audioOf chunks = timeline.output) ∧
      (∀ (D : Detector) (listening : TrackEnv) (t : Track D), t.samples = 0 → t.chunks = 0 →
        ∀ before chunk after, chunks = before ++ chunk :: after →
          (runAll (Track.audio listening) t before).error = none →
          (runAll (Track.audio listening) t before).state.Accepts chunk) ∧
      ∀ count : Nat, ((125 * count + 1) / 2 : Int) < 2 ^ 63 →
        env.duration count kOutputRate = (125 * count + 1) / 2 := by
  intro timeline chunks
  have hInStep := decodeAudio_inStep env calls
  have hCut : timeline.CutInto env track chunks :=
    hInStep.always (fun _ _ hDone other => (hDone other).cut) track
  refine ⟨hCut, fun hDone => (hInStep.done hDone track).whole, ?_, fun count => hRescale.duration count⟩
  intro D listening t hSamples hChunks before chunk after hSplit hTaken
  have hFollows := hCut.follows before chunk after hSplit
  have hTallied := Track.Tallied.run ⟨hSamples, hChunks⟩ hTaken
  exact ⟨hFollows.format, hFollows.first.trans hTallied.1.symm,
    hFollows.number.trans (congrArg (· + 1) hTallied.2.symm)⟩

/-- Time conversion to the nearest unit, and a callback that never throws. -/
def exactEnv : DecodeEnv where
  rescaleQ count a b := nearest (count * (a.num * b.den)) (a.den * b.num)
  sameLayout a b := a == b
  timeBase _ := ⟨1, 1000⟩
  emit _ := none

def frameAt (pts : Option Int) (flush : FlushReplies) (samples : List Sample) : Nat × DecodeCall :=
  (0, .frame ⟨16000, ⟨1, []⟩, 1600, 8, pts⟩
    ⟨none, none, none, flush, none, .ok 1600, .ok samples⟩)

/-- A frame without samples yet, one that follows it, one without a timestamp, and a jump back
that finds a sample left in the resampler. -/
def jumpingCalls : List (Nat × DecodeCall) :=
  [frameAt (some 5000) [] [], frameAt (some 5100) [] [1, 2], frameAt none [] [3],
    frameAt (some 1000) [.ok [4], .ok []] [5], (0, .drain [.ok []])]

theorem decoded_audio_timeline_jump :
    (AudioTimeline.ofCalls exactEnv 0 (callsOf 0 jumpingCalls)).runs =
        [⟨0, 5000000, false⟩, ⟨4, 1000000, true⟩] ∧
      (AudioTimeline.ofCalls exactEnv 0 (callsOf 0 jumpingCalls)).CutInto exactEnv 0
        (chunksOf 0 (decodeAudio exactEnv jumpingCalls).emitted) :=
  ⟨by decide, (decoded_audio_timeline exactEnv (fun _ _ _ _ _ _ => rfl) jumpingCalls 0).1⟩

end GrpcAsr.Media
