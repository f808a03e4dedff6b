import GrpcAsr.Media.Demuxer

/-!
# Relayed packets

A consumer puts the fragments of the packets together again: fragments of one packet follow
each other without a gap, packets are numbered from one, and every fragment repeats what is
known of its packet. From the events of a decoder run it gets back the packets that the run
has read.
-/

namespace GrpcAsr.Media.Demux

open Emitting

set_option autoImplicit false

/-- The packets that are complete, and the one that has been started. -/
structure Assembly where
  whole : List EncodedPacket
  started : Option EncodedPacket
  deriving DecidableEq

namespace Assembly

def put (a : Assembly) (packet : EncodedPacket) : Assembly :=
  if packet.data.length = packet.packetBytes then ⟨a.whole ++ [packet], none⟩
  else ⟨a.whole, some packet⟩

/-- A fragment that does not fit is refused. -/
def take (a : Assembly) (fragment : EncodedPacket) : Option Assembly :=
  match a.started with
  | none =>
    if fragment.packetNumber = a.whole.length + 1 ∧ fragment.fragmentOffset = 0 ∧
        fragment.data.length ≤ fragment.packetBytes then
      some (a.put fragment)
    else none
  | some packet =>
    let longer := { packet with data := packet.data ++ fragment.data }
    if { fragment with
          fragmentOffset := packet.fragmentOffset
          data := packet.data ++ fragment.data
          sideData := packet.sideData } = longer ∧
        fragment.fragmentOffset = packet.data.length ∧ fragment.sideData = [] ∧
        longer.data.length ≤ longer.packetBytes then
      some (a.put longer)
    else none

theorem take_fresh {whole : List EncodedPacket} {fragment : EncodedPacket}
    (hNumber : fragment.packetNumber = whole.length + 1) (hOffset : fragment.fragmentOffset = 0)
    (hSize : fragment.data.length ≤ fragment.packetBytes) :
    take ⟨whole, none⟩ fragment = some (put ⟨whole, none⟩ fragment) :=
  if_pos ⟨hNumber, hOffset, hSize⟩

theorem take_started {whole : List EncodedPacket} {packet fragment : EncodedPacket}
    (hSame : { fragment with
        fragmentOffset := packet.fragmentOffset
        data := packet.data ++ fragment.data
        sideData := packet.sideData } = { packet with data := packet.data ++ fragment.data })
    (hOffset : fragment.fragmentOffset = packet.data.length) (hSide : fragment.sideData = [])
    (hSize : (packet.data ++ fragment.data).length ≤ packet.packetBytes) :
    take ⟨whole, some packet⟩ fragment =
      some (put ⟨whole, none⟩ { packet with data := packet.data ++ fragment.data }) :=
  if_pos ⟨hSame, hOffset, hSide, hSize⟩

end Assembly

def packetOf : DecoderEvent → Option EncodedPacket
  | .packet p => some p
  | _ => none

def packetsOf (events : List DecoderEvent) : List EncodedPacket :=
  events.filterMap packetOf

def assemble (events : List DecoderEvent) : Option Assembly :=
  (packetsOf events).foldlM Assembly.take ⟨[], none⟩

/-- The packet of a turn as one message. -/
def wholePacket (number track : Nat) (timeBase : AVRational) (packet : NativePacket) : EncodedPacket :=
  { Decoder.header number track timeBase packet with
    data := packet.data
    sideData := packet.sideData.map NativeSideData.message }

def turnPacket (number : Nat) (turn : PacketTurn) : Option EncodedPacket :=
  match turn.packet with
  | .error _ => none
  | .ok packet =>
    if packet.streamIndex < 0 then none
    else turn.context.streams[packet.streamIndex.toNat]?.map fun native =>
      wholePacket number packet.streamIndex.toNat native.timeBase packet

/-- The packets of all turns, numbered. -/
def wholePackets : Nat → List PacketTurn → List EncodedPacket
  | _, [] => []
  | number, turn :: turns =>
    (turnPacket number turn).toList ++ wholePackets (number + (turnPacket number turn).toList.length) turns

/-- An assembly has the first ones of these packets, and a part of the next one. -/
structure Assembly.Fits (expected : List EncodedPacket) (a : Assembly) : Prop where
  whole : a.whole <+: expected
  started : ∀ packet, a.started = some packet → ∃ next,
    expected[a.whole.length]? = some next ∧ packet.data <+: next.data ∧
      packet = { next with data := packet.data }

variable {env : DemuxEnv} {out : List DecoderEvent} {expected : List EncodedPacket}

theorem packetsOf_append (a b : List DecoderEvent) :
    packetsOf (a ++ b) = packetsOf a ++ packetsOf b := List.filterMap_append

theorem assemble_packet {a : Assembly} (h : assemble out = some a) (packet : EncodedPacket) :
    assemble (out ++ [.packet packet]) = a.take packet := by
  rw [assemble, packetsOf_append, List.foldlM_append]
  have hFirst : (packetsOf out).foldlM Assembly.take ⟨[], none⟩ = some a := h
  rw [hFirst]
  show ([packet].foldlM Assembly.take a) = a.take packet
  rw [List.foldlM_cons]
  cases a.take packet with
  | none => rfl
  | some next => rfl

theorem assemble_silent {events : List DecoderEvent} (h : packetsOf events = []) :
    assemble (out ++ events) = assemble out := by
  rw [assemble, packetsOf_append, h, List.append_nil]
  rfl

/-! ## One packet -/

theorem addSideData_ok {packet packet' : EncodedPacket} {sides : List NativeSideData}
    (h : addSideData env packet sides = .ok packet') :
    packet' = { packet with
      sideData := packet.sideData ++ sides.map NativeSideData.message } := by
  induction sides generalizing packet with
  | nil =>
    obtain rfl := Except.ok.inj h
    rw [List.map_nil, List.append_nil]
  | cons side sides ih =>
    rw [addSideData] at h
    obtain ⟨_, -, h⟩ := bind_eq_ok h
    obtain ⟨_, -, h⟩ := bind_eq_ok h
    rw [ih h, List.map_cons, List.append_assoc]
    rfl

theorem fragment_first {packet : NativePacket} {header message : EncodedPacket} {data : Bytes}
    (hHeader : header.sideData = [])
    (h : Decoder.fragment env packet header (0, data) = .ok message) :
    message = { header with
      fragmentOffset := 0
      data := data
      sideData := packet.sideData.map NativeSideData.message } := by
  unfold Decoder.fragment at h
  simp only [if_true] at h
  obtain ⟨_, -, h⟩ := bind_eq_ok h
  obtain ⟨sided, hSided, h⟩ := bind_eq_ok h
  rw [addSideData_ok hSided, hHeader, List.nil_append] at h
  exact (Except.ok.inj h).symm

theorem fragment_later {packet : NativePacket} {header : EncodedPacket} {offset : Nat}
    (hOffset : offset ≠ 0) (data : Bytes) :
    Decoder.fragment env packet header (offset, data) =
      .ok { header with fragmentOffset := offset, data := data } := by
  unfold Decoder.fragment
  simp only [if_neg hOffset]
  rfl

/-- Where a packet stands before the fragment at an offset. -/
inductive Progress (before : List EncodedPacket) (whole : EncodedPacket) (out : List DecoderEvent)
    (offset : Nat) : Prop
  | fresh (hOffset : offset = 0) (hAssembly : assemble out = some ⟨before, none⟩)
  | started (hOffset : 0 < offset) (hLess : offset < whole.data.length)
      (hAssembly : assemble out =
        some ⟨before, some { whole with data := whole.data.take offset }⟩)

variable {before : List EncodedPacket} {whole : EncodedPacket} {offset : Nat}

theorem Progress.fits (h : Progress before whole out offset)
    (hExpected : before ++ [whole] <+: expected) :
    ∃ a, assemble out = some a ∧ a.Fits expected := by
  have hBefore : before <+: expected := (List.prefix_append _ _).trans hExpected
  cases h with
  | fresh hOffset hAssembly =>
    exact ⟨_, hAssembly, hBefore, fun packet hNone => absurd hNone (Option.some_ne_none packet).symm⟩
  | started hOffset hLess hAssembly =>
    refine ⟨_, hAssembly, hBefore, fun packet hSome => ⟨whole, ?_, ?_, ?_⟩⟩
    · obtain ⟨rest, rfl⟩ := hExpected
      rw [List.append_assoc, List.getElem?_append_right (Nat.le_refl _), Nat.sub_self]
      rfl
    · obtain rfl := Option.some.inj hSome
      exact List.take_prefix _ _
    · obtain rfl := Option.some.inj hSome
      rfl

variable {number track : Nat} {timeBase : AVRational} {packet : NativePacket} {message : EncodedPacket}

theorem take_piece {data piece : Bytes} (h : piece <+: data.drop offset) :
    data.take offset ++ piece = data.take (offset + piece.length) := by
  rw [List.take_add, ← List.prefix_iff_eq_take.mp h]

/-- The consumer takes the next fragment. -/
theorem Progress.take (hNumber : number = before.length + 1)
    (h : Progress before (wholePacket number track timeBase packet) out offset) {piece : Bytes}
    (hPiece : piece <+: packet.data.drop offset)
    (hMessage : Decoder.fragment env packet (Decoder.header number track timeBase packet)
      (offset, piece) = .ok message) :
    assemble (out ++ [.packet message]) =
      some (Assembly.put ⟨before, none⟩ { wholePacket number track timeBase packet with
        data := packet.data.take (offset + piece.length) }) := by
  have hLength := hPiece.length_le
  rw [List.length_drop] at hLength
  cases h with
  | fresh hOffset hAssembly =>
    subst hOffset
    obtain rfl := fragment_first rfl hMessage
    rw [assemble_packet hAssembly, Assembly.take_fresh hNumber rfl hLength, ← take_piece hPiece,
      List.take_zero, List.nil_append]
    rfl
  | started hOffset hLess hAssembly =>
    rw [fragment_later (Nat.pos_iff_ne_zero.mp hOffset)] at hMessage
    obtain rfl := Except.ok.inj hMessage
    have hInside : offset < packet.data.length := hLess
    have hTaken : (packet.data.take offset).length = offset :=
      List.length_take_of_le (Nat.le_of_lt hInside)
    have hSize : (packet.data.take offset ++ piece).length ≤ packet.data.length := by
      rw [List.length_append, hTaken]
      omega
    refine (assemble_packet hAssembly _).trans ?_
    rw [← take_piece hPiece]
    exact Assembly.take_started rfl hTaken.symm rfl hSize

theorem Progress.offset_le (h : Progress before whole out offset) : offset ≤ whole.data.length := by
  cases h with
  | fresh hOffset => exact hOffset ▸ Nat.zero_le _
  | started hOffset hLess => exact Nat.le_of_lt hLess

/-- The packet is complete, or stands before its next fragment. -/
theorem Progress.next (hNumber : number = before.length + 1)
    (h : Progress before (wholePacket number track timeBase packet) out offset)
    (hMessage : Decoder.fragment env packet (Decoder.header number track timeBase packet)
      (offset, (packet.data.drop offset).take (kEventBytes / 2)) = .ok message) :
    (packet.data.length - offset ≤ kEventBytes / 2 →
      assemble (out ++ [.packet message]) =
        some ⟨before ++ [wholePacket number track timeBase packet], none⟩) ∧
    (kEventBytes / 2 < packet.data.length - offset →
      Progress before (wholePacket number track timeBase packet) (out ++ [.packet message])
        (offset + kEventBytes / 2)) := by
  have hTake := h.take hNumber (List.take_prefix _ _) hMessage
  have hOffset : offset ≤ packet.data.length := h.offset_le
  rw [List.length_take, List.length_drop] at hTake
  refine ⟨fun hLast => ?_, fun hMore => ?_⟩
  · rw [Nat.min_eq_right hLast, Nat.add_sub_of_le hOffset, List.take_length] at hTake
    rw [hTake]
    exact congrArg some (if_pos rfl)
  · rw [Nat.min_eq_left (Nat.le_of_lt hMore)] at hTake
    have hLess : offset + kEventBytes / 2 < packet.data.length := by omega
    refine .started (Nat.lt_of_lt_of_le (by decide) (Nat.le_add_left _ _)) hLess ?_
    rw [hTake]
    have hNot : (packet.data.take (offset + kEventBytes / 2)).length ≠ packet.data.length := by
      rw [List.length_take_of_le (Nat.le_of_lt hLess)]
      exact Nat.ne_of_lt hLess
    exact congrArg some (if_neg hNot)

/-- The events so far fit the packets that are read. -/
def Relayed (expected : List EncodedPacket) (out : List DecoderEvent) : Prop :=
  ∃ a, assemble out = some a ∧ a.Fits expected

theorem relayed_whole {done : List EncodedPacket} (hAssembly : assemble out = some ⟨done, none⟩)
    (hExpected : done <+: expected) : Relayed expected out :=
  ⟨_, hAssembly, hExpected, fun packet hNone => absurd hNone (Option.some_ne_none packet).symm⟩

theorem relay_fragments (hNumber : number = before.length + 1)
    (hExpected : before ++ [wholePacket number track timeBase packet] <+: expected) (rest : Bytes)
    (offset : Nat) (d : Decoder) (out : List DecoderEvent) (hRest : rest = packet.data.drop offset)
    (h : Progress before (wholePacket number track timeBase packet) out offset) :
    Ensures out
      (runAll (Decoder.emitFragment env packet (Decoder.header number track timeBase packet)) d
        (fragments offset rest))
      (fun d' out' => d' = d ∧ assemble out' =
        some ⟨before ++ [wholePacket number track timeBase packet], none⟩)
      (Relayed expected) := by
  fun_induction fragments offset rest generalizing out with
  | case1 offset rest ih =>
    rw [runAll_cons, Decoder.emitFragment]
    cases hMessage : Decoder.fragment env packet (Decoder.header number track timeBase packet)
        (offset, rest.take (kEventBytes / 2)) with
    | error e => exact Ensures.throw (h.fits hExpected)
    | ok message =>
      subst hRest
      obtain ⟨hLast, hMore⟩ := h.next hNumber hMessage
      rw [List.length_drop] at ih ⊢
      refine Ensures.next (Q := fun d' out' => d' = d ∧ out' = out ++ [.packet message])
        ⟨fun _ => ⟨rfl, rfl⟩, fun _ => ?_⟩ ?_
      · by_cases hSize : packet.data.length - offset ≤ kEventBytes / 2
        · exact relayed_whole (hLast hSize) hExpected
        · exact (hMore (Nat.lt_of_not_le hSize)).fits hExpected
      · rintro d' out' ⟨rfl, rfl⟩
        by_cases hSize : packet.data.length - offset ≤ kEventBytes / 2
        · rw [if_pos hSize]
          exact Ensures.return_ ⟨rfl, hLast hSize⟩
        · rw [if_neg hSize]
          exact ih hSize _ (List.drop_drop ..) (hMore (Nat.lt_of_not_le hSize))

/-! ## A run -/

/-- An operation that relays no packet. -/
abbrev Silent (d : Decoder) (o : DemuxOutcome) : Prop :=
  Leaves Decoder.packets packetOf d o

namespace Decoder

variable (d : Decoder)

/-- Parts of the decoder that are no business of the audio, and events that are not audio. -/
theorem decode_leaves {α β : Type} {view : Decoder → α} {pick : DecoderEvent → Option β}
    (hView : ∀ d tracks, view { d with tracks } = view d) (hPick : ∀ chunk, pick (.audio chunk) = none)
    (calls : List (Nat × DecodeCall)) : Leaves view pick d (d.decode env calls) := by
  refine ⟨hView d _, ?_⟩
  rw [decode, List.filterMap_map]
  exact List.filterMap_eq_nil_iff.mpr fun chunk _ => hPick chunk

theorem decodePacket_leaves {α β : Type} {view : Decoder → α} {pick : DecoderEvent → Option β}
    (hView : ∀ d tracks, view { d with tracks } = view d)
    (hOpened : ∀ d opened, view { d with opened } = view d)
    (hPick : ∀ chunk, pick (.audio chunk) = none) (track : Nat) (packet : NativePacket)
    (turn : PacketTurn) : Leaves view pick d (d.decodePacket env track packet turn) := by
  unfold decodePacket
  split
  · exact .quiet d _
  · refine Leaves.next (Leaves.next ?_ fun d => decode_leaves d hView hPick _) fun d => .quiet d _
    split
    · exact .quiet d _
    · exact ⟨hOpened d _, rfl⟩

theorem flush_leaves {α β : Type} {view : Decoder → α} {pick : DecoderEvent → Option β}
    (hView : ∀ d tracks, view { d with tracks } = view d)
    (hPick : ∀ chunk, pick (.audio chunk) = none) (replies : DemuxReplies) (track : Nat) :
    Leaves view pick d (flush env replies d track) := by
  unfold flush
  refine Leaves.next (Leaves.next (Leaves.next (decode_leaves d hView hPick _)
    fun d => .quiet d _) fun d => decode_leaves d hView hPick _) fun d => ?_
  split
  · exact .quiet d _
  · exact .quiet d _

theorem describe_leaves {α β : Type} {view : Decoder → α} {pick : DecoderEvent → Option β}
    (hView : ∀ d description, view { d with description } = view d)
    (hPick : ∀ info, pick (.mediaInfo info) = none) (context : FormatContext) :
    Leaves view pick d (d.describe env context) := by
  unfold describe
  split
  · exact .quiet d _
  next info hInfo =>
    split
    · exact .quiet d _
    · refine ⟨hView d _, ?_⟩
      rw [List.filterMap_cons_none (hPick info)]
      rfl

theorem emitPacket_leaves {α β : Type} {view : Decoder → α} {pick : DecoderEvent → Option β}
    (hView : ∀ d packets, view { d with packets } = view d)
    (hPick : ∀ packet, pick (.packet packet) = none) (track : Nat) (timeBase : AVRational)
    (packet : NativePacket) : Leaves view pick d (d.emitPacket env track timeBase packet) := by
  unfold emitPacket
  split
  · exact .quiet d _
  · have hFragment (d' : Decoder) (piece : Nat × Bytes) : Leaves view pick d'
        (emitFragment env packet (header (d.packets + 1) track timeBase packet) d' piece) := by
      unfold emitFragment
      split
      · exact .quiet d' _
      next message hMessage =>
        refine ⟨rfl, ?_⟩
        rw [List.filterMap_cons_none (hPick message)]
        rfl
    obtain ⟨hState, hEmitted⟩ := Leaves.runAll hFragment { d with packets := d.packets + 1 }
      (fragments 0 packet.data)
    exact ⟨hState.trans (hView d _), hEmitted⟩

theorem describe_silent (env : DemuxEnv) (d : Decoder) (context : FormatContext) :
    Silent d (d.describe env context) :=
  describe_leaves d (fun _ _ => rfl) (fun _ => rfl) context

theorem decodePacket_silent (track : Nat) (packet : NativePacket) (turn : PacketTurn) :
    Silent d (d.decodePacket env track packet turn) :=
  decodePacket_leaves d (fun _ _ => rfl) (fun _ _ => rfl) (fun _ => rfl) track packet turn

theorem flush_silent (replies : DemuxReplies) (track : Nat) : Silent d (flush env replies d track) :=
  flush_leaves d (fun _ _ => rfl) (fun _ => rfl) replies track

theorem turn_silent {options : DecodeOptions} (hEmit : options.emitPackets = false)
    (turn : PacketTurn) : Silent d (d.turn env options turn) := by
  unfold Decoder.turn
  split
  · exact .quiet d _
  · split
    · exact .quiet d _
    · split
      · exact .quiet d _
      · refine Leaves.next (Leaves.next (describe_silent env d _) fun d => ?_) fun d => ?_
        · rw [hEmit]
          exact .quiet d _
        · split
          · exact decodePacket_silent d _ _ _
          · exact .quiet d _

end Decoder

/-- All packets so far have been relayed. -/
structure Stands (done : List EncodedPacket) (d : Decoder) (out : List DecoderEvent) : Prop where
  packets : d.packets = done.length
  assembly : assemble out = some ⟨done, none⟩

variable {done : List EncodedPacket} {d : Decoder} {options : DecodeOptions}

theorem Stands.silent (h : Stands done d out) {o : DemuxOutcome} (hSilent : Silent d o)
    (hExpected : done <+: expected) : Ensures out o (Stands done) (Relayed expected) := by
  have hAssembly := (assemble_silent hSilent.emitted).trans h.assembly
  exact ⟨fun _ => ⟨hSilent.state.trans h.packets, hAssembly⟩,
    fun _ => relayed_whole hAssembly hExpected⟩

theorem Stands.emitPacket (h : Stands done d out)
    (hExpected : done ++ [wholePacket (done.length + 1) track timeBase packet] <+: expected) :
    Ensures out (d.emitPacket env track timeBase packet)
      (Stands (done ++ [wholePacket (done.length + 1) track timeBase packet])) (Relayed expected) := by
  unfold Decoder.emitPacket
  split
  · exact Ensures.throw (relayed_whole h.assembly ((List.prefix_append _ _).trans hExpected))
  · rw [h.packets]
    refine (relay_fragments rfl hExpected packet.data 0 _ out rfl (.fresh rfl h.assembly)).imp ?_
    rintro d' out' ⟨rfl, hAssembly⟩
    refine ⟨?_, hAssembly⟩
    rw [List.length_append]
    rfl

theorem Stands.turn (h : Stands done d out) (hEmit : options.emitPackets = true) (turn : PacketTurn)
    (hExpected : done ++ (turnPacket (done.length + 1) turn).toList <+: expected) :
    Ensures out (d.turn env options turn)
      (Stands (done ++ (turnPacket (done.length + 1) turn).toList)) (Relayed expected) := by
  have hDone : Relayed expected out :=
    relayed_whole h.assembly ((List.prefix_append _ _).trans hExpected)
  unfold Decoder.turn
  unfold turnPacket at hExpected ⊢
  cases hPacket : turn.packet with
  | error e => exact Ensures.throw hDone
  | ok packet =>
    simp only [hPacket] at hExpected ⊢
    split
    · exact Ensures.throw hDone
    · by_cases hIndex : packet.streamIndex < 0
      · simp only [if_pos hIndex]
        exact Ensures.throw hDone
      · simp only [if_neg hIndex] at hExpected ⊢
        cases hNative : turn.context.streams[packet.streamIndex.toNat]? with
        | none => exact Ensures.throw hDone
        | some native =>
          simp only [hNative, Option.map_some, Option.toList_some] at hExpected ⊢
          refine Ensures.next (Q := Stands (done ++ [wholePacket (done.length + 1)
              packet.streamIndex.toNat native.timeBase packet]))
            (Ensures.next (h.silent (Decoder.describe_silent env d turn.context)
              ((List.prefix_append _ _).trans hExpected)) fun d' out' h' => ?_)
            fun d' out' h' => ?_
          · exact h'.emitPacket hExpected
          · refine h'.silent ?_ hExpected
            split
            · exact Decoder.decodePacket_silent d' _ _ _
            · exact Leaves.quiet d' _

theorem wholePackets_append (number : Nat) (first later : List PacketTurn) :
    wholePackets number (first ++ later) = wholePackets number first ++
      wholePackets (number + (wholePackets number first).length) later := by
  induction first generalizing number with
  | nil => rfl
  | cons turn first ih =>
    rw [List.cons_append, wholePackets, wholePackets, ih, List.append_assoc, List.length_append,
      Nat.add_assoc]

theorem Stands.turns (h : Stands [] d out) (hEmit : options.emitPackets = true)
    (turns : List PacketTurn) :
    Ensures out (runAll (Decoder.turn env options) d turns) (Stands (wholePackets 1 turns))
      (Relayed (wholePackets 1 turns)) := by
  refine Ensures.runAll (P := fun before => Stands (wholePackets 1 before)) ?_ h
  intro before turn after d' out' hSplit hBefore
  have hNext : wholePackets 1 (before ++ [turn]) =
      wholePackets 1 before ++ (turnPacket ((wholePackets 1 before).length + 1) turn).toList := by
    rw [wholePackets_append, Nat.add_comm 1]
    exact congrArg _ (List.append_nil _)
  rw [hNext]
  have hAll : wholePackets 1 turns = wholePackets 1 (before ++ [turn]) ++
      wholePackets (1 + (wholePackets 1 (before ++ [turn])).length) after := by
    rw [hSplit, ← wholePackets_append, List.append_assoc]
    rfl
  refine hBefore.turn hEmit turn ?_
  rw [← hNext, hAll]
  exact List.prefix_append _ _

/-- A consumer that puts the fragments of a run together gets the packets that were read, in
their order and with all that is known of them: all of them from a run without an error, and
the first ones and a part of the next one from any other. A run that is not to relay packets
relays none. -/
theorem packets_relayed (env : DemuxEnv) (options : DecodeOptions) (replies : DemuxReplies) :
    (options.emitPackets = true →
      ∃ a, assemble (Decoder.run env options replies).emitted = some a ∧
        a.Fits (wholePackets 1 replies.turns) ∧
        ((Decoder.run env options replies).error = none →
          a = ⟨wholePackets 1 replies.turns, none⟩)) ∧
    (options.emitPackets = false → packetsOf (Decoder.run env options replies).emitted = []) := by
  refine ⟨fun hEmit => ?_, fun hEmit => ?_⟩
  · have hStart : Stands [] Decoder.start [] := ⟨rfl, rfl⟩
    have hNil : [] <+: wholePackets 1 replies.turns := List.nil_prefix
    have hRun : Ensures [] (Decoder.run env options replies) (Stands (wholePackets 1 replies.turns))
        (Relayed (wholePackets 1 replies.turns)) := by
      unfold Decoder.run
      refine Ensures.next (Ensures.next (Ensures.next (Ensures.next (Ensures.next
        (hStart.silent (Leaves.quiet _ _) hNil)
        fun d out h => h.silent (Decoder.describe_silent env d _) hNil)
        fun d out h => h.turns hEmit _)
        fun d out h => h.silent (Leaves.quiet d _) (List.prefix_refl _))
        fun d out h => h.silent ?_ (List.prefix_refl _))
        fun d out h => h.silent (Decoder.describe_silent env d _) (List.prefix_refl _)
      exact Leaves.next (Leaves.runAll (fun d track => Decoder.flush_silent d replies track) d _)
        fun d => Leaves.quiet d _
    cases hError : (Decoder.run env options replies).error with
    | none =>
      have hStands := hRun.done hError
      exact ⟨_, hStands.assembly, ⟨List.prefix_refl _, fun packet hNone =>
        absurd hNone (Option.some_ne_none packet).symm⟩, fun _ => rfl⟩
    | some e =>
      obtain ⟨a, hAssembly, hFits⟩ := hRun.failed (hError ▸ Option.some_ne_none e)
      exact ⟨a, hAssembly, hFits, fun hNone => absurd hNone (Option.some_ne_none e)⟩
  · have hRun : Silent Decoder.start (Decoder.run env options replies) := by
      unfold Decoder.run
      refine Leaves.next (Leaves.next (Leaves.next (Leaves.next (Leaves.next
        (Leaves.quiet _ _)
        fun d => Decoder.describe_silent env d _)
        fun d => Leaves.runAll (fun d turn => Decoder.turn_silent d hEmit turn) d _)
        fun d => Leaves.quiet d _)
        fun d => Leaves.next (Leaves.runAll (fun d track => Decoder.flush_silent d replies track) d _)
          fun d => Leaves.quiet d _)
        fun d => Decoder.describe_silent env d _
    exact hRun.emitted

end GrpcAsr.Media.Demux
