import Mathlib.Data.List.Sort
import GrpcAsr.Library.Family
import GrpcAsr.Media.TrackAgreement
import GrpcAsr.Media.WorkerStreams

/-!
# The tracks of a pipeline

A pipeline keeps one track for every audio track and speech task, opens it with the first
chunk of audio and finishes all of them at the end. All tracks are fed from one sequence of
chunks; each of them does what it would do with its own chunks alone.
-/

namespace GrpcAsr.Media

open Emitting

set_option autoImplicit false

/-- Audio track and index of the speech task. -/
abbrev TrackKey := Nat × Nat

/-- The stream, its resolved speech tasks, the replies to the worker handshakes, and the
surroundings of each track. -/
structure PipelineEnv where
  streamId : Bytes
  speech : List SpeechOptions
  opens : TrackKey → OpenTrack → Except Failure WorkerOpened
  tracks : TrackKey → TrackEnv

inductive TrackCall
  | audio (chunk : AudioChunk)
  | finish
  deriving DecidableEq

def maxTracks : Nat := 32

namespace PipelineEnv

variable (env : PipelineEnv)

def options (key : TrackKey) : SpeechOptions := env.speech.getD key.2 default

/-- The opening message of a track; the windowing policy stays with the pipeline. -/
def request (key : TrackKey) : OpenTrack :=
  ⟨env.streamId, key.1, { env.options key with windowing := none }⟩

def handshakeValid (options : SpeechOptions) (request : OpenTrack) (opened : WorkerOpened) : Bool :=
  opened.accepted.streamId == request.streamId && opened.accepted.trackId == request.trackId &&
    opened.accepted.options == request.options && opened.producer.modelId == options.modelId &&
    opened.producer.modelSha256.length == 32 && opened.producer.configurationSha256.length == 32 &&
    validUuid opened.producer.machineId

/-- The constructor of a track, with its handshake. -/
def openTrack (D : Detector) (key : TrackKey) : Except Exception (Track D) :=
  match env.opens key (env.request key) with
  | .error failure =>
    let code := if failure.code = .ok then StatusCode.dataLoss else failure.code
    .error (.failure ⟨code, "speech worker stream failed"⟩)
  | .ok opened =>
    if handshakeValid (env.options key) (env.request key) opened then
      Track.create D (env.options key) key.1
    else .error (.failure ⟨.invalidArgument, "invalid worker handshake"⟩)

def take {D : Detector} (key : TrackKey) (t : Track D) : TrackCall → TrackOutcome D
  | .audio chunk => t.audio (env.tracks key) chunk
  | .finish => t.finish (env.tracks key)

def machines (D : Detector) :
    Family.Machines TrackKey (Track D) TrackCall TrackAction Exception where
  openAt := env.openTrack D
  step := env.take
  limit := maxTracks
  full := .failure ⟨.resourceExhausted, "speech track/task limit reached"⟩

end PipelineEnv

/-- The tracks by audio track and task. -/
abbrev Pipeline (D : Detector) := Family.Members TrackKey (Track D)

abbrev PipelineOutcome (D : Detector) := Outcome (Pipeline D) (TrackKey × TrackAction) Exception

namespace Pipeline

variable {D : Detector} (env : PipelineEnv)

/-- A chunk goes to the track of every task. -/
def calls (chunk : AudioChunk) : List (TrackKey × TrackCall) :=
  (List.range env.speech.length).map fun i => ((chunk.trackId, i), .audio chunk)

def audio (p : Pipeline D) (chunk : AudioChunk) : PipelineOutcome D :=
  runAll (env.machines D).deliver p (calls env chunk)

/-- The order of the keys in the map. -/
def keyLe (a b : TrackKey) : Bool := a.1 < b.1 || a.1 == b.1 && a.2 ≤ b.2

def finishCalls (p : Pipeline D) : List (TrackKey × TrackCall) :=
  (p.keys.mergeSort keyLe).map fun key => (key, .finish)

def finish (p : Pipeline D) : PipelineOutcome D :=
  if p.keys.isEmpty then
    ⟨p, [], some (.failure ⟨.failedPrecondition, "requested speech but no audio was decoded"⟩)⟩
  else runAll (env.machines D).deliver p (finishCalls p)

/-- The chunks of a stream and its end. -/
def run (D : Detector) (chunks : List AudioChunk) : PipelineOutcome D :=
  (runAll (audio env) (∅ : Pipeline D) chunks).next (finish env)

/-- What the track of a key is to do. -/
def ownCalls (chunks : List AudioChunk) (key : TrackKey) : List TrackCall :=
  if key.2 < env.speech.length then
    (chunks.filter fun chunk => chunk.trackId == key.1).map TrackCall.audio
  else []

theorem own_calls (chunk : AudioChunk) (key : TrackKey) (n : Nat) :
    Family.Machines.own key
        ((List.range n).map fun i => ((chunk.trackId, i), TrackCall.audio chunk)) =
      if key.2 < n ∧ chunk.trackId = key.1 then [.audio chunk] else [] := by
  induction n with
  | zero => rfl
  | succ n ih =>
    rw [List.range_succ, List.map_append, Family.Machines.own_append, ih, List.map_singleton,
      Family.Machines.own_singleton]
    by_cases hTrack : chunk.trackId = key.1
    · by_cases hLast : n = key.2
      · have hKey : (chunk.trackId, n) = key := Prod.ext hTrack hLast
        rw [if_pos hKey, if_neg (fun h => Nat.not_lt_of_le (Nat.le_of_eq hLast) h.1),
          if_pos ⟨hLast ▸ Nat.lt_succ_self n, hTrack⟩]
        rfl
      · have hKey : (chunk.trackId, n) ≠ key := fun h => hLast (congrArg Prod.snd h)
        rw [if_neg hKey, List.append_nil]
        refine if_congr ?_ rfl rfl
        rw [Nat.lt_succ_iff_lt_or_eq]
        exact ⟨fun h => ⟨.inl h.1, h.2⟩, fun h =>
          ⟨h.1.resolve_right fun hEq => hLast hEq.symm, h.2⟩⟩
    · have hKey : (chunk.trackId, n) ≠ key := fun h => hTrack (congrArg Prod.fst h)
      rw [if_neg hKey, if_neg (fun h => hTrack h.2), if_neg (fun h => hTrack h.2)]
      rfl

theorem own_chunks (chunks : List AudioChunk) (key : TrackKey) :
    Family.Machines.own key (chunks.flatMap (calls env)) = ownCalls env chunks key := by
  induction chunks with
  | nil =>
    rw [ownCalls]
    split
    · rfl
    · rfl
  | cons chunk chunks ih =>
    rw [List.flatMap_cons, Family.Machines.own_append, ih, calls, own_calls, ownCalls, ownCalls,
      List.filter_cons]
    by_cases hTask : key.2 < env.speech.length
    · by_cases hTrack : chunk.trackId = key.1
      · rw [if_pos ⟨hTask, hTrack⟩, if_pos hTask, if_pos hTask, if_pos (beq_iff_eq.mpr hTrack)]
        rfl
      · rw [if_neg (fun h => hTrack h.2), if_pos hTask, if_pos hTask,
          if_neg (fun h => hTrack (beq_iff_eq.mp h))]
        rfl
    · rw [if_neg (fun h => hTask h.1), if_neg hTask, if_neg hTask]
      rfl

theorem own_finish (p : Pipeline D) (key : TrackKey) :
    (key ∈ p.keys → Family.Machines.own key (finishCalls p) = [.finish]) ∧
      (key ∉ p.keys → Family.Machines.own key (finishCalls p) = []) := by
  have hPerm := List.mergeSort_perm p.keys keyLe
  obtain ⟨hMember, hStranger⟩ := Family.Machines.own_broadcast (hPerm.nodup_iff.mpr p.keys_nodup)
    key TrackCall.finish
  exact ⟨fun hMem => hMember (hPerm.mem_iff.mpr hMem),
    fun hNot => hStranger fun hMem => hNot (hPerm.mem_iff.mp hMem)⟩

/-- The run of a pipeline as a run of its machines, up to the last message that arrives. -/
inductive Ran (D : Detector) (env : PipelineEnv) (chunks : List AudioChunk) :
    List (TrackKey × TrackAction) → Option Exception → Prop
  | failed (e : Exception)
      (hError : ((env.machines D).run (chunks.flatMap (calls env))).error = some e) :
    Ran D env chunks ((env.machines D).run (chunks.flatMap (calls env))).emitted (some e)
  | silent (hOk : ((env.machines D).run (chunks.flatMap (calls env))).error = none)
      (hNone : ((env.machines D).run (chunks.flatMap (calls env))).state.keys = []) :
    Ran D env chunks ((env.machines D).run (chunks.flatMap (calls env))).emitted
      (some (.failure ⟨.failedPrecondition, "requested speech but no audio was decoded"⟩))
  | finished (messages : List (TrackKey × TrackCall))
      (hOk : ((env.machines D).run (chunks.flatMap (calls env))).error = none)
      (hMessages : messages = chunks.flatMap (calls env) ++
        finishCalls ((env.machines D).run (chunks.flatMap (calls env))).state) :
    Ran D env chunks ((env.machines D).run messages).emitted ((env.machines D).run messages).error

theorem run_ran (chunks : List AudioChunk) :
    Ran D env chunks (run env D chunks).emitted (run env D chunks).error := by
  have hAudio : (runAll (audio env) (∅ : Pipeline D) chunks).Agrees
      ((env.machines D).run (chunks.flatMap (calls env))) :=
    runAll_flatMap (P := fun _ => True) (fun _ _ _ => .refl _) (fun _ _ _ _ => trivial) chunks
      trivial
  have hRun : (run env D chunks).Agrees
      (((env.machines D).run (chunks.flatMap (calls env))).next (finish env)) :=
    hAudio.next fun _ => .refl _
  rw [hRun.emitted, hRun.error]
  cases hOk : ((env.machines D).run (chunks.flatMap (calls env))).error with
  | some e =>
    rw [Outcome.next_of_error hOk, hOk]
    exact .failed e hOk
  | none =>
    rw [Outcome.next_of_none hOk]
    unfold finish
    by_cases hNone : ((env.machines D).run (chunks.flatMap (calls env))).state.keys = []
    · rw [if_pos (List.isEmpty_iff.mpr hNone)]
      simp only [List.append_nil]
      exact .silent hOk hNone
    · rw [if_neg (fun hEmpty => hNone (List.isEmpty_iff.mp hEmpty))]
      have hAll := Family.Machines.run_append (m := env.machines D) (chunks.flatMap (calls env))
        (finishCalls ((env.machines D).run (chunks.flatMap (calls env))).state)
      rw [Outcome.next_of_none hOk] at hAll
      have hRan : Ran D env chunks _ _ := .finished _ hOk rfl
      rw [hAll] at hRan
      exact hRan

/-- What a track emitted is what it emits alone, for the first calls that are for it. -/
structure Alone (D : Detector) (env : PipelineEnv) (chunks : List AudioChunk) (key : TrackKey)
    (emitted : List TrackAction) (error : Option Exception) (taken : List TrackCall) : Prop where
  first : taken <+: ownCalls env chunks key ++ [.finish]
  called : taken ≠ [] → ownCalls env chunks key ≠ []
  whole : error = none → taken = if ownCalls env chunks key = [] then [] else
    ownCalls env chunks key ++ [.finish]
  runs : taken = [] ∧ emitted = [] ∨
    ∃ t : Track D, env.openTrack D key = .ok t ∧
      emitted = (runAll (env.take key) t taken).emitted ∧
      ((runAll (env.take key) t taken).error = none ∨ (runAll (env.take key) t taken).error = error)

theorem alone_of_follows {chunks : List AudioChunk} {key : TrackKey} {taken : List TrackCall}
    {o : PipelineOutcome D} {own error : Option Exception}
    (h : Family.Machines.Follows (env.machines D) key taken o.state o.emitted own)
    (hOwn : own = none ∨ own = error) (hFirst : taken <+: ownCalls env chunks key ++ [.finish])
    (hCalled : taken ≠ [] → ownCalls env chunks key ≠ [])
    (hWhole : error = none → taken = if ownCalls env chunks key = [] then [] else
      ownCalls env chunks key ++ [.finish]) :
    Alone D env chunks key (Family.Machines.own key o.emitted) error taken := by
  refine ⟨hFirst, hCalled, hWhole, ?_⟩
  cases h with
  | closed hTaken hState hEmitted => exact .inl ⟨hTaken, hEmitted⟩
  | opened t hTaken hOpen hState hEmitted hError =>
    refine .inr ⟨t, hOpen, hEmitted, ?_⟩
    rw [← hError] at hOwn
    exact hOwn

/-- A key has a track after the audio exactly if there was a call for it. -/
theorem mem_keys {chunks : List AudioChunk} {key : TrackKey}
    (hOk : ((env.machines D).run (chunks.flatMap (calls env))).error = none) :
    key ∈ ((env.machines D).run (chunks.flatMap (calls env))).state.keys ↔
      ownCalls env chunks key ≠ [] := by
  have hFollows := Family.Machines.run_follows _ hOk key
  rw [own_chunks] at hFollows
  rw [← AList.mem_keys, ← AList.lookup_isSome]
  cases hFollows with
  | closed hTaken hState =>
    rw [hState]
    exact iff_of_false (fun h => Bool.false_ne_true h) (fun h => h hTaken)
  | opened t hTaken hOpen hState =>
    rw [hState]
    exact iff_of_true rfl hTaken

/-- The messages of a run, up to its failure: the audio, and the ends of all tracks. -/
inductive Messages (D : Detector) (env : PipelineEnv) (chunks : List AudioChunk) :
    List (TrackKey × TrackCall) → Prop
  | audio : Messages D env chunks (chunks.flatMap (calls env))
  | all (hOk : ((env.machines D).run (chunks.flatMap (calls env))).error = none) :
    Messages D env chunks (chunks.flatMap (calls env) ++
      finishCalls ((env.machines D).run (chunks.flatMap (calls env))).state)

variable {env} {chunks : List AudioChunk} {messages : List (TrackKey × TrackCall)} {key : TrackKey}

theorem own_all (hOk : ((env.machines D).run (chunks.flatMap (calls env))).error = none)
    (key : TrackKey) :
    Family.Machines.own key (chunks.flatMap (calls env) ++
        finishCalls ((env.machines D).run (chunks.flatMap (calls env))).state) =
      if ownCalls env chunks key = [] then [] else ownCalls env chunks key ++ [.finish] := by
  rw [Family.Machines.own_append, own_chunks]
  by_cases hNone : ownCalls env chunks key = []
  · rw [(own_finish _ key).2 (fun h => (mem_keys env hOk).mp h hNone), if_pos hNone, hNone]
    rfl
  · rw [(own_finish _ key).1 ((mem_keys env hOk).mpr hNone), if_neg hNone]

theorem Messages.own (h : Messages D env chunks messages) (key : TrackKey) :
    Family.Machines.own key messages <+: ownCalls env chunks key ++ [.finish] ∧
      (Family.Machines.own key messages ≠ [] → ownCalls env chunks key ≠ []) := by
  cases h with
  | audio =>
    rw [own_chunks]
    exact ⟨List.prefix_append _ _, id⟩
  | all hOk =>
    rw [own_all hOk]
    by_cases hNone : ownCalls env chunks key = []
    · rw [if_pos hNone]
      exact ⟨List.nil_prefix, fun hSome => absurd rfl hSome⟩
    · rw [if_neg hNone]
      exact ⟨List.prefix_refl _, fun _ => hNone⟩

theorem own_before {before : List (TrackKey × TrackCall)} {message : TrackKey × TrackCall}
    {later : List (TrackKey × TrackCall)} (hSplit : messages = before ++ message :: later)
    (key : TrackKey) :
    Family.Machines.own key before ++ (if message.1 = key then [message.2] else []) <+:
      Family.Machines.own key messages := by
  rw [hSplit, Family.Machines.own_append, Family.Machines.own_cons, ← List.append_assoc]
  exact List.prefix_append _ _

theorem alone_of_failed (hMessages : Messages D env chunks messages) {e : Exception}
    (hError : ((env.machines D).run messages).error = some e) (key : TrackKey) :
    ∃ taken, Alone D env chunks key
      (Family.Machines.own key ((env.machines D).run messages).emitted) (some e) taken := by
  have hNot {P : Prop} (h : some e = none) : P := absurd h (Option.some_ne_none e)
  obtain ⟨before, message, later, hSplit, hOthers, hBlamed⟩ :=
    Family.Machines.run_failed messages hError
  have hBefore := own_before hSplit key
  have hCalled {taken : List TrackCall} (hTaken : taken <+: Family.Machines.own key messages)
      (hSome : taken ≠ []) : ownCalls env chunks key ≠ [] :=
    (hMessages.own key).2 fun hNone => hSome (List.prefix_nil.mp (hNone ▸ hTaken))
  have hFirst {taken : List TrackCall} (hTaken : taken <+: Family.Machines.own key messages) :
      taken <+: ownCalls env chunks key ++ [.finish] := hTaken.trans (hMessages.own key).1
  by_cases hKey : message.1 = key
  · subst hKey
    rw [if_pos rfl] at hBefore
    rcases hBlamed with hFed | ⟨hClosed, hNone, hCause⟩
    · exact ⟨_, alone_of_follows env hFed (.inr rfl) (hFirst hBefore) (hCalled hBefore) hNot⟩
    · exact ⟨[], alone_of_follows env hClosed (.inl rfl) List.nil_prefix (absurd rfl) hNot⟩
  · rw [if_neg hKey, List.append_nil] at hBefore
    exact ⟨_, alone_of_follows env (hOthers key (Ne.symm hKey)) (.inl rfl) (hFirst hBefore)
      (hCalled hBefore) hNot⟩

theorem run_alone (D : Detector) (env : PipelineEnv) (chunks : List AudioChunk) (key : TrackKey) :
    ∃ taken, Alone D env chunks key (Family.Machines.own key (run env D chunks).emitted)
      (run env D chunks).error taken := by
  have hRan := run_ran (D := D) env chunks
  generalize (run env D chunks).emitted = emitted, (run env D chunks).error = error at hRan ⊢
  cases hRan with
  | failed e hError => exact alone_of_failed .audio hError key
  | silent hOk hNone =>
    have hFollows := Family.Machines.run_follows _ hOk key
    rw [own_chunks] at hFollows
    exact ⟨_, alone_of_follows env hFollows (.inl rfl) (List.prefix_append _ _) id
      (fun h => absurd h (Option.some_ne_none _))⟩
  | finished messages hOk hMessages =>
    subst hMessages
    cases hError : ((env.machines D).run (chunks.flatMap (calls env) ++
        finishCalls ((env.machines D).run (chunks.flatMap (calls env))).state)).error with
    | some e => exact alone_of_failed (.all hOk) hError key
    | none =>
      have hFollows := Family.Machines.run_follows _ hError key
      have hOwn := (Messages.all hOk).own key
      exact ⟨_, alone_of_follows env hFollows (.inl rfl) hOwn.1 hOwn.2 (fun _ => own_all hOk key)⟩

/-- Why a pipeline fails: there was no audio for any task, or too much of it for its tracks, or
one track cannot be opened or fails, also when it is alone. -/
inductive Blamed (D : Detector) (env : PipelineEnv) (chunks : List AudioChunk) : Exception → Prop
  | silent (hNone : ∀ key, ownCalls env chunks key = []) :
    Blamed D env chunks
      (.failure ⟨.failedPrecondition, "requested speech but no audio was decoded"⟩)
  | limit (keys : List TrackKey) (hNodup : keys.Nodup) (hLength : keys.length = 33)
      (hCalled : ∀ key ∈ keys, ownCalls env chunks key ≠ []) :
    Blamed D env chunks (.failure ⟨.resourceExhausted, "speech track/task limit reached"⟩)
  | refused (key : TrackKey) (hCalled : ownCalls env chunks key ≠ []) (e : Exception)
      (hOpen : env.openTrack D key = .error e) : Blamed D env chunks e
  | track (key : TrackKey) (t : Track D) (hOpen : env.openTrack D key = .ok t)
      (taken : List TrackCall) (hFirst : taken <+: ownCalls env chunks key ++ [.finish])
      (e : Exception) (hError : (runAll (env.take key) t taken).error = some e) :
    Blamed D env chunks e

theorem blamed_of_failed (hMessages : Messages D env chunks messages) {e : Exception}
    (hError : ((env.machines D).run messages).error = some e) : Blamed D env chunks e := by
  obtain ⟨before, message, later, hSplit, hOthers, hBlamed⟩ :=
    Family.Machines.run_failed messages hError
  have hPrefix := own_before hSplit
  have hCalled : ownCalls env chunks message.1 ≠ [] := by
    refine (hMessages.own message.1).2 fun hNone => ?_
    have hHere := hPrefix message.1
    rw [hNone, if_pos rfl] at hHere
    exact List.append_ne_nil_of_right_ne_nil _ (List.cons_ne_nil _ _) (List.prefix_nil.mp hHere)
  rcases hBlamed with hFed | ⟨hClosed, hNone, ⟨rfl, hFull⟩ | hOpen⟩
  · cases hFed with
    | closed hTaken => exact absurd hTaken (List.append_ne_nil_of_right_ne_nil _ (List.cons_ne_nil _ _))
    | opened t hTaken hOpen hState hEmitted hFailed =>
      have hFirst := hPrefix message.1
      rw [if_pos rfl] at hFirst
      exact .track message.1 t hOpen _ (hFirst.trans (hMessages.own message.1).1) e hFailed
  · have hNew : message.1 ∉ ((env.machines D).run messages).state.keys := by
      rw [← AList.mem_keys, ← AList.lookup_eq_none]
      cases hClosed with
      | closed hTaken hState => exact hState
      | opened t hTaken => exact absurd rfl hTaken
    refine .limit (message.1 :: ((env.machines D).run messages).state.keys)
      (List.nodup_cons.mpr ⟨hNew, AList.keys_nodup _⟩) ?_ ?_
    · rw [List.length_cons]
      exact congrArg (· + 1) (Nat.le_antisymm (Family.Machines.run_limit messages) hFull)
    · intro key hKey
      rcases List.mem_cons.mp hKey with rfl | hMem
      · exact hCalled
      · have hNe : key ≠ message.1 := fun hEq => hNew (hEq ▸ hMem)
        refine (hMessages.own key).2 fun hNothing => ?_
        have hFirst := hPrefix key
        rw [hNothing, if_neg hNe.symm, List.append_nil] at hFirst
        have hFollows := hOthers key hNe
        rw [List.prefix_nil.mp hFirst] at hFollows
        cases hFollows with
        | closed hTaken hState =>
          rw [← AList.mem_keys, ← AList.lookup_isSome, hState] at hMem
          cases hMem
        | opened t hTaken => exact absurd rfl hTaken
  · exact .refused message.1 hCalled e hOpen

/-- However the audio of the tracks is mixed, every track of a pipeline does what it does alone:
all of it with its own chunks and its end if nothing fails, and otherwise up to the failure,
which has its reason in one track or in the number of tracks. -/
theorem tracks_alone (D : Detector) (env : PipelineEnv) (chunks : List AudioChunk) :
    (∀ key, ∃ taken, Alone D env chunks key (Family.Machines.own key (run env D chunks).emitted)
      (run env D chunks).error taken) ∧
    ∀ e, (run env D chunks).error = some e → Blamed D env chunks e := by
  refine ⟨run_alone D env chunks, fun e hError => ?_⟩
  have hRan := run_ran (D := D) env chunks
  rw [hError] at hRan
  generalize (run env D chunks).emitted = emitted, hSome : some e = error at hRan
  cases hRan with
  | failed e' hFailed =>
    obtain rfl := Option.some.inj hSome
    exact blamed_of_failed .audio hFailed
  | silent hOk hNone =>
    obtain rfl := Option.some.inj hSome
    refine .silent fun key => ?_
    by_contra hCalled
    exact List.not_mem_nil (hNone ▸ (mem_keys env hOk).mpr hCalled)
  | finished messages hOk hMessages =>
    subst hMessages
    exact blamed_of_failed (.all hOk) hSome.symm

end Pipeline

/-! ## Pipeline and worker -/

/-- The identity a worker is constructed with. -/
structure WorkerConfig.Identified (config : WorkerConfig) : Prop where
  model : config.producer.modelId = config.backend.modelId
  machine : validUuid config.producer.machineId = true
  modelSha256 : config.producer.modelSha256.length = 32
  configuration : ∀ options, (config.configurationSha256 options).length = 32

/-- The constructor gives a worker its identity, SHA-256 digests being 32 bytes. -/
theorem WorkerConfig.create_identified {sha256 : Bytes → Bytes} {serialize : SpeechOptions → Bytes}
    {setup : WorkerSetup} {machineEntropy : Entropy} {config : WorkerConfig}
    (hSha256 : ∀ bytes, (sha256 bytes).length = 32)
    (hCreate : WorkerConfig.create sha256 serialize setup machineEntropy = .ok config) :
    config.Identified := by
  obtain ⟨_, -, hCreate⟩ := bind_eq_ok hCreate
  obtain ⟨_, hMachine, hCreate⟩ := bind_eq_ok hCreate
  cases hCreate
  exact ⟨rfl, require_eq_ok.mp hMachine, hSha256 _, fun options => hSha256 _⟩

/-- A worker opens a track only for options its backend accepts. -/
theorem WorkerConfig.open_validates {config : WorkerConfig} {request : OpenTrack}
    {opened : WorkerOpened} (h : config.open request = .ok opened) :
    config.backend.validateOptions request.options = .ok () := by
  obtain ⟨_, -, h⟩ := bind_eq_ok h
  obtain ⟨_, -, h⟩ := bind_eq_ok h
  obtain ⟨_, hValid, -⟩ := bind_eq_ok h
  exact hValid

theorem SpeechBackend.validateOptions_model {backend : SpeechBackend} {options : SpeechOptions}
    (h : backend.validateOptions options = .ok ()) : options.modelId = backend.modelId := by
  cases backend with
  | whisper modelId multilingual knowsLanguage =>
    obtain ⟨-, -, h⟩ := bind_eq_ok h
    simp only [require_eq_ok, Bool.and_eq_true, beq_iff_eq] at h
    exact h.1.1.1.1
  | parakeet modelId =>
    simp only [SpeechBackend.validateOptions, require_eq_ok, Bool.and_eq_true, beq_iff_eq] at h
    exact h.1.1

theorem SpeechOptions.withDefaults_task (o : SpeechOptions) :
    o.withDefaults.task = if o.task = .unspecified then .transcribe else o.task := by
  unfold SpeechOptions.withDefaults
  by_cases hNone : o.reconcileTranscript.isNone
  · simp only [hNone, if_true]
  · by_cases hTrue : o.reconcileTranscript = some true
    · simp only [hTrue, Option.isNone_some, Bool.false_eq_true, if_false, if_true]
    · simp only [hNone, hTrue, Bool.false_eq_true, if_false]

/-- Resolved options name a task. -/
theorem SpeechOptions.resolve_task {vadConfigured : Bool} {o resolved : SpeechOptions}
    (h : o.resolve vadConfigured = .ok resolved) : resolved.task ≠ .unspecified := by
  unfold SpeechOptions.resolve at h
  obtain ⟨_, -, h⟩ := bind_eq_ok h
  obtain ⟨_, -, h⟩ := bind_eq_ok h
  obtain ⟨_, -, h⟩ := bind_eq_ok h
  obtain ⟨_, -, h⟩ := bind_eq_ok h
  split at h
  · cases h
    rw [SpeechOptions.withDefaults_task]
    split
    · exact fun hEq => SpeechTask.noConfusion hEq
    next hTask => exact hTask
  · cases h
  · cases h

namespace Pipeline

variable {D : Detector} {env : PipelineEnv}

/-- The handshake with a worker that has the model succeeds for resolved options. -/
theorem handshake_ok {config : WorkerConfig} (hIdentified : config.Identified) {key : TrackKey}
    (hOpens : env.opens key = config.open) (hStream : validUuid env.streamId = true)
    (hTask : (env.options key).task ≠ .unspecified)
    (hBackend : config.backend.validateOptions (env.request key).options = .ok ()) :
    ∃ opened, env.opens key (env.request key) = .ok opened ∧
      PipelineEnv.handshakeValid (env.options key) (env.request key) opened = true := by
  have hModel := SpeechBackend.validateOptions_model hBackend
  refine ⟨⟨env.request key, { config.producer with
    configurationSha256 := config.configurationSha256 (env.request key).options },
    maxWindowSamples⟩, ?_, ?_⟩
  · have hNamed : (env.request key).options.task ≠ .unspecified := hTask
    have hStreamId : validUuid (env.request key).streamId = true := hStream
    rw [hOpens, WorkerConfig.open, hStreamId, hBackend, if_neg hNamed]
    rfl
  · simp only [PipelineEnv.handshakeValid, BEq.rfl, Bool.true_and, hIdentified.model,
      hIdentified.machine, hIdentified.modelSha256, hIdentified.configuration, Bool.and_true,
      beq_iff_eq]
    exact hModel.symm

theorem take_whole (key : TrackKey) (t : Track D) (chunks : List AudioChunk) :
    runAll (env.take key) t (chunks.map TrackCall.audio ++ [.finish]) =
      (runAll (Track.audio (env.tracks key)) t chunks).next (Track.finish (env.tracks key)) := by
  rw [runAll_append, runAll_map]
  simp only [runAll_singleton]
  rfl

/-- What a track emits of its calls, all together or some of them. -/
theorem take_agrees {options : SpeechOptions} {w : Windowing}
    (hWindows : Windowing.create options.policy = .ok w) {t : Track D} {track : Nat}
    (hCreate : Track.create D options track = .ok t) (key : TrackKey) (chunks : List AudioChunk)
    (hLimit : (chunks.map Track.sampleCount).sum ≤ sampleLimit) {taken : List TrackCall}
    (hTaken : taken <+: chunks.map TrackCall.audio ++ [.finish]) :
    Agreed (runAll (env.take key) t taken).emitted := by
  have hRun := (Track.Runs.create hWindows hCreate).run (env.tracks key) chunks hLimit
  have hAll := hRun.next fun t' actions h' => h'.finish (env.tracks key) hLimit
  have hAgreed := hAll.always fun _ _ hDone => hDone
  rw [List.nil_append, ← take_whole] at hAgreed
  exact fun action hMem => hAgreed action (List.IsPrefix.subset ( emitted_prefix _ hTaken t) hMem)

theorem openTrack_create {key : TrackKey} {t : Track D} (h : env.openTrack D key = .ok t) :
    Track.create D (env.options key) key.1 = .ok t := by
  unfold PipelineEnv.openTrack at h
  split at h
  · cases h
  · split at h
    · exact h
    · cases h

theorem task_of_call {chunks : List AudioChunk} {key : TrackKey}
    (h : ownCalls env chunks key ≠ []) : env.options key ∈ env.speech := by
  rw [ownCalls] at h
  split at h
  next hTask =>
    rw [PipelineEnv.options, List.getD_eq_getElem?_getD, List.getElem?_eq_getElem hTask]
    exact List.getElem_mem hTask
  · exact absurd rfl h

end Pipeline

/-- A stream with resolved speech options, whose audio is within the limit of each track: a worker
as its constructor builds it opens exactly the tracks whose options its backend accepts, and it
accepts every window and close of every track, however the audio of the tracks is mixed; and so
does the reconciler of each track. -/
theorem pipeline_agrees {vadConfigured : Bool} {request resolved : OpenStream}
    (hResolve : request.resolve vadConfigured = .ok resolved) {sha256 : Bytes → Bytes}
    (hSha256 : ∀ bytes, (sha256 bytes).length = 32) {serialize : SpeechOptions → Bytes}
    {setup : WorkerSetup} {machineEntropy : Entropy} {config : WorkerConfig}
    (hCreate : WorkerConfig.create sha256 serialize setup machineEntropy = .ok config)
    (D : Detector) (env : PipelineEnv) (hSpeech : env.speech = resolved.speech)
    (hOpens : ∀ key, env.opens key = config.open) (hStream : validUuid env.streamId = true)
    (chunks : List AudioChunk)
    (hLimit : ∀ track, ((chunks.filter fun chunk => chunk.trackId == track).map
      Track.sampleCount).sum ≤ sampleLimit) :
    (∀ key, Pipeline.ownCalls env chunks key ≠ [] →
      ((∃ t, env.openTrack D key = .ok t) ↔
        config.backend.validateOptions (env.request key).options = .ok ())) ∧
      ∀ key action, (key, action) ∈ (Pipeline.run env D chunks).emitted → action.Agrees := by
  have hResolved {key : TrackKey} (hCalled : Pipeline.ownCalls env chunks key ≠ []) :
      env.options key ∈ resolved.speech ∧
        ∃ o : SpeechOptions, o.resolve vadConfigured = .ok (env.options key) := by
    have hMem := hSpeech ▸ Pipeline.task_of_call hCalled
    exact ⟨hMem, OpenStream.resolve_speech hResolve hMem⟩
  refine ⟨fun key hCalled => ⟨?_, fun hBackend => ?_⟩, fun key action hMem => ?_⟩
  · rintro ⟨t, hOpen⟩
    rw [PipelineEnv.openTrack] at hOpen
    split at hOpen
    · cases hOpen
    next opened hOpened =>
      rw [hOpens] at hOpened
      exact WorkerConfig.open_validates hOpened
  · obtain ⟨-, o, ho⟩ := hResolved hCalled
    obtain ⟨w, hWindows⟩ := SpeechOptions.resolve_policy ho
    obtain ⟨opened, hOpened, hValid⟩ := Pipeline.handshake_ok
      (WorkerConfig.create_identified hSha256 hCreate) (hOpens key) hStream
      (SpeechOptions.resolve_task ho) hBackend
    rw [PipelineEnv.openTrack, hOpened]
    simp only [hValid, if_true]
    rw [Track.create, hWindows]
    exact ⟨_, rfl⟩
  · obtain ⟨taken, hFirst, hCalled, -, hRuns⟩ := Pipeline.run_alone D env chunks key
    have hOwn := Family.Machines.mem_own.mpr hMem
    rcases hRuns with ⟨-, hNothing⟩ | ⟨t, hOpen, hEmitted, -⟩
    · rw [hNothing] at hOwn
      exact absurd hOwn List.not_mem_nil
    · rw [hEmitted] at hOwn
      have hCall := hCalled fun hNone => absurd (hNone ▸ hOwn) List.not_mem_nil
      obtain ⟨hMem, o, ho⟩ := hResolved hCall
      obtain ⟨w, hWindows⟩ := SpeechOptions.resolve_policy ho
      rw [Pipeline.ownCalls] at hFirst hCall
      split at hCall
      next hTask =>
        rw [if_pos hTask] at hFirst
        exact Pipeline.take_agrees hWindows (Pipeline.openTrack_create hOpen) key _
          (hLimit key.1) hFirst action hOwn
      · exact absurd rfl hCall

/-- A worker that has the model, and a stream with two audio tracks for it. -/
def namedSetup : WorkerSetup where
  backend := .parakeet (ascii "tiny")
  weights := [1]
  engineVersion := []
  executionBackend := ascii "cpu"
  threads := 1
  appVersion := []
  buildId := []
  machineId := ascii "00000000-0000-4000-8000-000000000002"
  inputIdleMs := 1000

def twoTracks (config : WorkerConfig) : PipelineEnv where
  streamId := ascii "00000000-0000-4000-8000-000000000001"
  speech := [resolvedOptions]
  opens := fun _ => config.open
  tracks := fun key => { silentEnv with worker := { silentEnv.worker with trackId := key.1 } }

theorem pipeline_agrees_silent :
    ∃ config, WorkerConfig.create (fun _ => List.replicate 32 1) (fun _ => []) namedSetup
        (fun _ => 0) = .ok config ∧
      (∃ t, (twoTracks config).openTrack silent (1, 0) = .ok t) ∧
      ∀ key action,
        (key, action) ∈ (Pipeline.run (twoTracks config) silent
          [{ twoSamples with trackId := 1 }, { twoSamples with trackId := 2 }]).emitted →
        action.Agrees := by
  refine ⟨_, rfl, ?_⟩
  have hAgrees := @pipeline_agrees false speechRequest { speechRequest with speech := [resolvedOptions] }
    rfl (fun _ => List.replicate 32 1) (fun _ => rfl) (fun _ => []) namedSetup (fun _ => 0) _ rfl
    silent (twoTracks _) rfl (fun _ => rfl) rfl
    [{ twoSamples with trackId := 1 }, { twoSamples with trackId := 2 }] (by
      intro track
      simp only [List.filter_cons, List.filter_nil]
      split
      · split
        · decide
        · decide
      · split
        · decide
        · decide)
  exact ⟨(hAgrees.1 (1, 0) (by decide)).mpr rfl, hAgrees.2⟩

end GrpcAsr.Media
