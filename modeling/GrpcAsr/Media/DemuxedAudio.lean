import Mathlib.Data.List.Chain
import GrpcAsr.Media.PacketRelay

/-!
# Audio and descriptions of a decoder run

The audio of a run is what the decoder's calls on the selected tracks give, in the order of
the packets and then of the tracks. Packets and audio always come after a description of the
media as it is.
-/

namespace GrpcAsr.Media.Demux

open Emitting

set_option autoImplicit false

def chunkOf : DecoderEvent → Option AudioChunk
  | .audio chunk => some chunk
  | _ => none

def infoOf : DecoderEvent → Option MediaInfo
  | .mediaInfo info => some info
  | _ => none

def audioOf (events : List DecoderEvent) : List AudioChunk := events.filterMap chunkOf

def infosOf (events : List DecoderEvent) : List MediaInfo := events.filterMap infoOf

/-- The audio track of a packet that is to be decoded. -/
def turnTrack (options : DecodeOptions) (turn : PacketTurn) : Option Nat :=
  match turn.packet with
  | .error _ => none
  | .ok packet =>
    if packet.streamIndex < 0 then none
    else
      match turn.context.streams[packet.streamIndex.toNat]? with
      | none => none
      | some native =>
        if Decoder.selects options packet.streamIndex.toNat native.codecType then
          some packet.streamIndex.toNat
        else none

def turnCalls (options : DecodeOptions) (turn : PacketTurn) : List (Nat × DecodeCall) :=
  match turnTrack options turn with
  | none => []
  | some track => Decoder.frameCalls track turn.frames

def openTrack (opened : List Nat) (track : Option Nat) : List Nat :=
  match track with
  | none => opened
  | some track => if opened.contains track then opened else opened ++ [track]

/-- The tracks that are decoded, in the order of their first packets. -/
def openedTracks (options : DecodeOptions) (turns : List PacketTurn) : List Nat :=
  turns.foldl (fun opened turn => openTrack opened (turnTrack options turn)) []

def flushCalls (replies : DemuxReplies) (track : Nat) : List (Nat × DecodeCall) :=
  Decoder.frameCalls track (replies.flush track).frames ++ [(track, .drain (replies.flush track).drain)]

/-- The calls of a run on the audio of its tracks. -/
def audioCalls (options : DecodeOptions) (replies : DemuxReplies) : List (Nat × DecodeCall) :=
  replies.turns.flatMap (turnCalls options) ++
    ((openedTracks options replies.turns).mergeSort (· ≤ ·)).flatMap (flushCalls replies)

variable {env : DemuxEnv} {out : List DecoderEvent} {options : DecodeOptions}

theorem audioOf_append (a b : List DecoderEvent) : audioOf (a ++ b) = audioOf a ++ audioOf b :=
  List.filterMap_append

theorem audioOf_audio (chunks : List AudioChunk) : audioOf (chunks.map .audio) = chunks := by
  rw [audioOf, List.filterMap_map]
  exact List.filterMap_some

/-- The decoder stands where these calls bring it, and has emitted their audio. -/
structure Decodes (env : DemuxEnv) (calls : List (Nat × DecodeCall)) (opened : List Nat) (d : Decoder)
    (out : List DecoderEvent) : Prop where
  opened : d.opened = opened
  tracks : d.tracks = (decodeAudio env.audio calls).state
  emitted : audioOf out = (decodeAudio env.audio calls).emitted
  error : (decodeAudio env.audio calls).error = none

/-- The audio so far is that of the first calls. -/
def Decoded (env : DemuxEnv) (all : List (Nat × DecodeCall)) (out : List DecoderEvent) : Prop :=
  ∃ calls, calls <+: all ∧ audioOf out = (decodeAudio env.audio calls).emitted

/-- An operation that leaves the audio alone. -/
abbrev Mute (d : Decoder) (o : DemuxOutcome) : Prop :=
  Leaves (fun d : Decoder => (d.opened, d.tracks)) chunkOf d o

variable {d : Decoder} {calls all : List (Nat × DecodeCall)} {opened : List Nat}

theorem Decodes.decoded (h : Decodes env calls opened d out) (hAll : calls <+: all) :
    Decoded env all out := ⟨calls, hAll, h.emitted⟩

theorem Decodes.mute (h : Decodes env calls opened d out) {o : DemuxOutcome} (hMute : Mute d o)
    (hAll : calls <+: all) : Ensures out o (Decodes env calls opened) (Decoded env all) := by
  have hAudio : audioOf (out ++ o.emitted) = (decodeAudio env.audio calls).emitted := by
    rw [audioOf_append, h.emitted]
    exact (congrArg _ hMute.emitted).trans (List.append_nil _)
  obtain ⟨hOpened, hTracks⟩ := Prod.mk.inj hMute.state
  exact ⟨fun _ => ⟨hOpened.trans h.opened, hTracks.trans h.tracks, hAudio, h.error⟩,
    fun _ => ⟨calls, hAll, hAudio⟩⟩

theorem Decodes.decode (h : Decodes env calls opened d out) (later : List (Nat × DecodeCall))
    (hAll : calls ++ later <+: all) :
    Ensures out (d.decode env later) (Decodes env (calls ++ later) opened) (Decoded env all) := by
  have hRun : decodeAudio env.audio (calls ++ later) = (decodeAudio env.audio calls).next
      fun tracks => runAll (AudioTracks.call env.audio) tracks later := runAll_append ..
  rw [Outcome.next_of_none h.error, ← h.tracks] at hRun
  have hAudio : audioOf (out ++ (d.decode env later).emitted) =
      (decodeAudio env.audio (calls ++ later)).emitted := by
    rw [hRun, audioOf_append, h.emitted]
    exact congrArg _ (audioOf_audio _)
  refine ⟨fun hOk => ⟨h.opened, ?_, hAudio, ?_⟩, fun _ => ⟨_, hAll, hAudio⟩⟩
  · rw [hRun]
    rfl
  · rw [hRun]
    exact hOk

theorem Decoder.describe_mute (env : DemuxEnv) (d : Decoder) (context : FormatContext) :
    Mute d (d.describe env context) :=
  Decoder.describe_leaves d (fun _ _ => rfl) (fun _ => rfl) context

theorem Decoder.emitPacket_mute (d : Decoder) (track : Nat) (timeBase : AVRational)
    (packet : NativePacket) : Mute d (d.emitPacket env track timeBase packet) :=
  Decoder.emitPacket_leaves d (fun _ _ => rfl) (fun _ => rfl) track timeBase packet

theorem Decodes.packet (h : Decodes env calls opened d out) (track : Nat) (packet : NativePacket)
    (turn : PacketTurn) (hAll : calls ++ Decoder.frameCalls track turn.frames <+: all) :
    Ensures out (d.decodePacket env track packet turn)
      (Decodes env (calls ++ Decoder.frameCalls track turn.frames) (openTrack opened (some track)))
      (Decoded env all) := by
  have hBefore : calls <+: all := (List.prefix_append _ _).trans hAll
  unfold Decoder.decodePacket
  split
  · exact Ensures.throw (h.decoded hBefore)
  · have hOpen : Ensures out
        (if d.opened.contains track then d.throws none
          else ⟨{ d with opened := d.opened ++ [track] }, [], turn.openCodec⟩)
        (Decodes env calls (openTrack opened (some track))) (Decoded env all) := by
      rw [h.opened, openTrack]
      split
      · exact h.mute (Leaves.quiet d none) hBefore
      · refine ⟨fun _ => ⟨rfl, h.tracks, ?_, h.error⟩, fun _ => ⟨calls, hBefore, ?_⟩⟩
        · rw [List.append_nil]
          exact h.emitted
        · rw [List.append_nil]
          exact h.emitted
    exact Ensures.next (Ensures.next hOpen fun d' out' h' => h'.decode _ hAll)
      fun d' out' h' => h'.mute (Leaves.quiet d' _) hAll

theorem Decodes.turn (h : Decodes env calls opened d out) (turn : PacketTurn)
    (hAll : calls ++ turnCalls options turn <+: all) :
    Ensures out (d.turn env options turn)
      (Decodes env (calls ++ turnCalls options turn) (openTrack opened (turnTrack options turn)))
      (Decoded env all) := by
  have hBefore : calls <+: all := (List.prefix_append _ _).trans hAll
  have hDone := h.decoded hBefore
  unfold Decoder.turn
  unfold turnCalls turnTrack at hAll ⊢
  cases hPacket : turn.packet with
  | error e => exact Ensures.throw hDone
  | ok packet =>
    simp only [hPacket] at hAll ⊢
    split
    · exact Ensures.throw hDone
    · by_cases hIndex : packet.streamIndex < 0
      · simp only [if_pos hIndex]
        exact Ensures.throw hDone
      · simp only [if_neg hIndex] at hAll ⊢
        cases hNative : turn.context.streams[packet.streamIndex.toNat]? with
        | none => exact Ensures.throw hDone
        | some native =>
          simp only [hNative] at hAll ⊢
          refine Ensures.next (Q := Decodes env calls opened)
            (Ensures.next (h.mute (Decoder.describe_mute env d turn.context) hBefore)
              fun d' out' h' => ?_) fun d' out' h' => ?_
          · split
            · exact h'.mute (Decoder.emitPacket_mute d' _ _ _) hBefore
            · exact h'.mute (Leaves.quiet d' _) hBefore
          · by_cases hSelects :
                Decoder.selects options packet.streamIndex.toNat native.codecType = true
            · simp only [if_pos hSelects] at hAll ⊢
              exact h'.packet _ packet turn hAll
            · simp only [if_neg hSelects] at hAll ⊢
              rw [List.append_nil]
              exact h'.mute (Leaves.quiet d' _) hBefore

theorem Decodes.flush (h : Decodes env calls opened d out) (replies : DemuxReplies) (track : Nat)
    (hAll : calls ++ flushCalls replies track <+: all) :
    Ensures out (Decoder.flush env replies d track)
      (Decodes env (calls ++ flushCalls replies track) opened) (Decoded env all) := by
  unfold flushCalls at hAll ⊢
  rw [← List.append_assoc] at hAll ⊢
  have hFrames := (List.prefix_append _ _).trans hAll
  unfold Decoder.flush
  refine Ensures.next (Ensures.next (Ensures.next (h.decode _ hFrames)
    fun d' out' h' => h'.mute (Leaves.quiet d' _) hFrames)
    fun d' out' h' => h'.decode _ hAll) fun d' out' h' => ?_
  split
  · exact h'.mute (Leaves.quiet d' _) hAll
  · exact h'.mute (Leaves.quiet d' _) hAll

theorem Decodes.turns (h : Decodes env [] [] d out) (turns : List PacketTurn)
    (hAll : turns.flatMap (turnCalls options) <+: all) :
    Ensures out (runAll (Decoder.turn env options) d turns)
      (Decodes env (turns.flatMap (turnCalls options)) (openedTracks options turns))
      (Decoded env all) := by
  refine Ensures.runAll (P := fun before =>
    Decodes env (before.flatMap (turnCalls options)) (openedTracks options before)) ?_ h
  intro before turn after d' out' hSplit hBefore
  have hCalls : (before ++ [turn]).flatMap (turnCalls options) =
      before.flatMap (turnCalls options) ++ turnCalls options turn := by
    rw [List.flatMap_append, List.flatMap_singleton]
  have hOpened : openedTracks options (before ++ [turn]) =
      openTrack (openedTracks options before) (turnTrack options turn) := by
    rw [openedTracks, List.foldl_append]
    rfl
  have hTurns : turns.flatMap (turnCalls options) =
      (before ++ [turn]).flatMap (turnCalls options) ++ after.flatMap (turnCalls options) := by
    rw [hSplit, ← List.flatMap_append, List.append_assoc]
    rfl
  rw [hCalls, hOpened]
  refine hBefore.turn turn (List.IsPrefix.trans ?_ hAll)
  rw [← hCalls, hTurns]
  exact List.prefix_append _ _

theorem Decodes.flushes (h : Decodes env calls opened d out) (replies : DemuxReplies)
    (tracks : List Nat) (hAll : calls ++ tracks.flatMap (flushCalls replies) <+: all) :
    Ensures out (runAll (Decoder.flush env replies) d tracks)
      (Decodes env (calls ++ tracks.flatMap (flushCalls replies)) opened) (Decoded env all) := by
  refine Ensures.runAll (P := fun before =>
    Decodes env (calls ++ before.flatMap (flushCalls replies)) opened) ?_ ?_
  · intro before track after d' out' hSplit hBefore
    rw [List.flatMap_append, List.flatMap_singleton, ← List.append_assoc]
    refine hBefore.flush replies track (List.IsPrefix.trans ?_ hAll)
    rw [hSplit, List.flatMap_append, List.flatMap_cons, List.append_assoc]
    exact (List.prefix_append_right_inj _).mpr
      ((List.prefix_append_right_inj _).mpr (List.prefix_append _ _))
  · rwa [List.flatMap_nil, List.append_nil]

/-- The end of the tracks, which all selected ones have to be among. -/
theorem Decodes.finish (options : DecodeOptions) (replies : DemuxReplies)
    (h : Decodes env (replies.turns.flatMap (turnCalls options)) (openedTracks options replies.turns)
      d out) :
    Ensures out
      ((runAll (Decoder.flush env replies) d (d.opened.mergeSort (· ≤ ·))).next fun d =>
        d.throws (Decoder.selectedAbsent options d))
      (fun d out => Decodes env (audioCalls options replies) (openedTracks options replies.turns) d out ∧
        ∀ track ∈ options.audioTrackIds, track ∈ openedTracks options replies.turns)
      (Decoded env (audioCalls options replies)) := by
  rw [h.opened]
  refine Ensures.next (h.flushes replies _ (List.prefix_refl _)) fun d' out' h' => ?_
  unfold Decoder.selectedAbsent
  split
  next hAll =>
    have hThrows := h'.mute (Leaves.quiet d' none) (List.prefix_refl _)
    refine hThrows.imp fun _ _ hDecodes => ⟨hDecodes, fun track hTrack => ?_⟩
    have hOpened := List.all_eq_true.mp hAll track hTrack
    rw [h'.opened] at hOpened
    exact List.contains_iff_mem.mp hOpened
  · exact Ensures.throw (h'.decoded (List.prefix_refl _))

theorem Decoder.run_decodes (env : DemuxEnv) (options : DecodeOptions) (replies : DemuxReplies) :
    Ensures [] (Decoder.run env options replies)
      (fun d out => Decodes env (audioCalls options replies) (openedTracks options replies.turns) d out ∧
        ∀ track ∈ options.audioTrackIds, track ∈ openedTracks options replies.turns)
      (Decoded env (audioCalls options replies)) := by
  have hStart : Decodes env [] [] Decoder.start [] := ⟨rfl, rfl, rfl, rfl⟩
  have hTurns : replies.turns.flatMap (turnCalls options) <+: audioCalls options replies :=
    List.prefix_append _ _
  unfold Decoder.run
  have hLoop := Ensures.next (Ensures.next (Ensures.next
    (hStart.mute (Leaves.quiet _ replies.opened) List.nil_prefix)
    fun d out h => h.mute (Decoder.describe_mute env d replies.context) List.nil_prefix)
    fun d out h => h.turns _ hTurns)
    fun d out h => h.mute (Leaves.quiet d replies.cancelled) hTurns
  have hFlushed := Ensures.next hLoop fun d out h => h.finish options replies
  apply Ensures.next hFlushed
  intro d out h
  have hLast := h.1.mute (Decoder.describe_mute env d replies.finalContext) (List.prefix_refl _)
  exact hLast.imp fun _ _ hDecodes => ⟨hDecodes, h.2⟩

/-- The audio of a run is what the calls on the selected tracks give: all of it from a run
without an error, and the audio of the first calls from any other. -/
theorem audio_decoded (env : DemuxEnv) (options : DecodeOptions) (replies : DemuxReplies) :
    ∃ calls, calls <+: audioCalls options replies ∧
      audioOf (Decoder.run env options replies).emitted = (decodeAudio env.audio calls).emitted ∧
      ((Decoder.run env options replies).error = none → calls = audioCalls options replies ∧
        (decodeAudio env.audio calls).error = none ∧
        ∀ track ∈ options.audioTrackIds, track ∈ openedTracks options replies.turns) := by
  have hRun := Decoder.run_decodes env options replies
  cases hError : (Decoder.run env options replies).error with
  | none =>
    obtain ⟨hDecodes, hSelected⟩ := hRun.done hError
    exact ⟨_, List.prefix_refl _, hDecodes.emitted, fun _ => ⟨rfl, hDecodes.error, hSelected⟩⟩
  | some e =>
    obtain ⟨calls, hFirst, hAudio⟩ := hRun.failed (hError ▸ Option.some_ne_none e)
    exact ⟨calls, hFirst, hAudio, fun hNone => absurd hNone (Option.some_ne_none e)⟩

/-! ## Descriptions -/

/-- The descriptions that were emitted, serialized. -/
def told (env : DemuxEnv) (out : List DecoderEvent) : List Bytes := (infosOf out).map env.serialize

/-- The decoder remembers the last description, and no description repeats the one before. -/
structure Told (env : DemuxEnv) (d : Decoder) (out : List DecoderEvent) : Prop where
  last : d.description = (told env out).getLastD []
  changes : ([] :: told env out).IsChain (· ≠ ·)

/-- An operation that describes nothing. -/
abbrev Untold (d : Decoder) (o : DemuxOutcome) : Prop := Leaves Decoder.description infoOf d o

theorem told_append (a b : List DecoderEvent) : told env (a ++ b) = told env a ++ told env b := by
  rw [told, infosOf, List.filterMap_append, List.map_append]
  rfl

theorem told_silent {events : List DecoderEvent} (h : infosOf events = []) :
    told env (out ++ events) = told env out := by
  have hNone : told env events = [] := congrArg (List.map env.serialize) h
  rw [told_append, hNone, List.append_nil]

theorem Told.untold (h : Told env d out) {o : DemuxOutcome} (hUntold : Untold d o) :
    Told env o.state (out ++ o.emitted) := by
  refine ⟨?_, ?_⟩
  · rw [told_silent hUntold.emitted, hUntold.state]
    exact h.last
  · rw [told_silent hUntold.emitted]
    exact h.changes

theorem Told.describe (h : Told env d out) (context : FormatContext) :
    Told env (d.describe env context).state (out ++ (d.describe env context).emitted) ∧
      ((d.describe env context).error = none → ∃ info, mediaInfo env context = .ok info ∧
        (d.describe env context).state.description = env.serialize info) := by
  unfold Decoder.describe
  cases hInfo : mediaInfo env context with
  | error e => exact ⟨h.untold (.quiet d _), fun hNone => absurd hNone (Option.some_ne_none e)⟩
  | ok info =>
    dsimp only
    split
    next hSame => exact ⟨h.untold (.quiet d _), fun _ => ⟨info, rfl, hSame.symm⟩⟩
    next hNew =>
      have hTold : told env (out ++ [.mediaInfo info]) = told env out ++ [env.serialize info] :=
        told_append out [.mediaInfo info]
      refine ⟨⟨?_, ?_⟩, fun _ => ⟨info, rfl, rfl⟩⟩
      · rw [hTold]
        exact List.getLastD_concat.symm
      · rw [hTold, ← List.cons_append]
        refine List.IsChain.append h.changes (List.isChain_singleton _) ?_
        intro last hLast next hNext
        obtain rfl : env.serialize info = next := Option.some.inj hNext
        have hDescription : last = d.description := by
          rw [h.last, List.getLastD_eq_getLast?]
          rw [List.getLast?_cons] at hLast
          exact (Option.some.inj hLast).symm
        exact fun hEq => hNew (hEq.symm.trans hDescription)

/-- A turn describes the media first and then does what tells nothing. -/
inductive TurnParts (env : DemuxEnv) (d : Decoder) (turn : PacketTurn) : DemuxOutcome → Prop
  | refused (e : Exception) : TurnParts env d turn ⟨d, [], some e⟩
  | described (f : Decoder → DemuxOutcome) (h : ∀ d, Untold d (f d)) :
    TurnParts env d turn ((d.describe env turn.context).next f)

theorem turn_parts (env : DemuxEnv) (d : Decoder) (options : DecodeOptions) (turn : PacketTurn) :
    TurnParts env d turn (d.turn env options turn) := by
  unfold Decoder.turn
  split
  · exact .refused _
  · split
    · exact .refused _
    · split
      · exact .refused _
      · rw [Outcome.next_assoc]
        refine .described _ fun d => Leaves.next ?_ fun d => ?_
        · split
          · exact Decoder.emitPacket_leaves d (fun _ _ => rfl) (fun _ => rfl) _ _ _
          · exact .quiet d _
        · split
          · exact Decoder.decodePacket_leaves d (fun _ _ => rfl) (fun _ _ => rfl) (fun _ => rfl) _ _ _
          · exact .quiet d _

theorem Told.turn (h : Told env d out) (turn : PacketTurn) :
    Told env (d.turn env options turn).state (out ++ (d.turn env options turn).emitted) := by
  have hParts := turn_parts env d options turn
  generalize d.turn env options turn = o at hParts ⊢
  cases hParts with
  | refused e => exact h.untold (.quiet d _)
  | described f hf =>
    exact Outcome.next_keeps (h.describe turn.context).1 fun d out h => h.untold (hf d)

/-- The run up to a turn. -/
def runBefore (env : DemuxEnv) (options : DecodeOptions) (replies : DemuxReplies)
    (turns : List PacketTurn) : DemuxOutcome :=
  ((Decoder.start.throws replies.opened).next fun d => d.describe env replies.context).next fun d =>
    runAll (Decoder.turn env options) d turns

theorem told_before (env : DemuxEnv) (options : DecodeOptions) (replies : DemuxReplies)
    (turns : List PacketTurn) :
    Told env (runBefore env options replies turns).state
      ([] ++ (runBefore env options replies turns).emitted) := by
  have hStart : Told env Decoder.start [] := ⟨rfl, List.isChain_singleton _⟩
  exact Outcome.next_keeps (Outcome.next_keeps (hStart.untold (.quiet Decoder.start replies.opened))
    fun d out h => (h.describe replies.context).1)
    fun d out h => runAll_keeps (fun d turn out h => h.turn turn) turns h

/-- A description is emitted when it differs from the last one, and whatever packets and audio a
turn emits come after the description of the media in that turn. -/
theorem descriptions_current (env : DemuxEnv) (options : DecodeOptions) (replies : DemuxReplies) :
    ([] :: told env (Decoder.run env options replies).emitted).IsChain (· ≠ ·) ∧
      ∀ (before : List PacketTurn) (turn : PacketTurn),
        (runBefore env options replies before).error = none →
        ∃ described rest,
          ((runBefore env options replies before).state.turn env options turn).emitted =
            described ++ rest ∧
          packetsOf described = [] ∧ audioOf described = [] ∧ infosOf rest = [] ∧
          (rest ≠ [] → ∃ info, mediaInfo env turn.context = .ok info ∧
            (told env ((runBefore env options replies before).emitted ++ described)).getLastD [] =
              env.serialize info) := by
  refine ⟨?_, fun before turn hOk => ?_⟩
  · have hFinish (d : Decoder) : Untold d
        ((runAll (Decoder.flush env replies) d (d.opened.mergeSort (· ≤ ·))).next fun d =>
          d.throws (Decoder.selectedAbsent options d)) :=
      Leaves.next (Leaves.runAll (fun d track =>
        Decoder.flush_leaves d (fun _ _ => rfl) (fun _ => rfl) replies track) d _)
        fun d => .quiet d _
    have hRun := Outcome.next_keeps (Outcome.next_keeps (Outcome.next_keeps
      (told_before env options replies replies.turns)
      fun d out h => h.untold (.quiet d replies.cancelled))
      fun d out h => h.untold (hFinish d))
      fun d out h => (h.describe replies.finalContext).1
    exact hRun.changes
  · have hTold := told_before env options replies before
    rw [List.nil_append] at hTold
    have hParts := turn_parts env (runBefore env options replies before).state options turn
    generalize (runBefore env options replies before).state.turn env options turn = o at hParts ⊢
    cases hParts with
    | refused e => exact ⟨[], [], rfl, rfl, rfl, rfl, fun h => absurd rfl h⟩
    | described f hf =>
      obtain ⟨hKept, hInfo⟩ := hTold.describe turn.context
      have hPackets := Decoder.describe_silent env (runBefore env options replies before).state
        turn.context
      have hAudio := Decoder.describe_mute env (runBefore env options replies before).state turn.context
      cases hError : ((runBefore env options replies before).state.describe env turn.context).error with
      | some e =>
        rw [Outcome.next_of_error hError]
        exact ⟨_, [], (List.append_nil _).symm, hPackets.emitted, hAudio.emitted, rfl,
          fun h => absurd rfl h⟩
      | none =>
        rw [Outcome.next_of_none hError]
        obtain ⟨info, hDescribed, hLast⟩ := hInfo hError
        exact ⟨_, _, rfl, hPackets.emitted, hAudio.emitted, (hf _).emitted,
          fun _ => ⟨info, hDescribed, hKept.last.symm.trans hLast⟩⟩

end GrpcAsr.Media.Demux
